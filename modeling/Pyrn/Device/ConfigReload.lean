import Pyrn.Device.ConfigStore
import Pyrn.Framework.Run

/-!
# Reloading the configuration

The communication thread stores the size and the bytes of a configuration and sets a flag; the
main loop clears the flag, reads the size and the bytes and builds the sensors anew. Each call of
the storage and each access to the flag is one step.
-/

namespace Pyrn.Device

open Pyrn.Storage Pyrn.Upload

/-- A reply as `DoServerRequest` hands it over. -/
structure Reply where
  ID : Int
  data : List UInt8
  ID_low : 1 ≤ ID
  ID_high : ID ≤ xferBuffSz
  data_length : data.length = xferBuffSz
  deriving Repr

theorem Reply.eq_iff (a b : Reply) : (a.ID = b.ID ∧ a.data = b.data) ↔ a = b := by
  cases a
  cases b
  simp

instance : DecidableEq Reply := fun a b => decidable_of_iff _ (Reply.eq_iff a b)

/-- The size that `event` computes, and the bytes of the configuration. -/
def Reply.dataSz (reply : Reply) : Int := reply.ID - 40

def Reply.config (reply : Reply) : List UInt8 := configurationOf reply.ID reply.data

/-- Where the communication thread stands in `event`. -/
inductive EventPoint
  | idle
  | writeSize (reply : Reply)
  | writeData (reply : Reply)
  | setPending
  deriving DecidableEq, Repr

/-- Where the main loop stands. Behind the first read it also remembers, as a ghost, the reply
whose size it has read. -/
inductive MainPoint
  | test
  | clear
  | readSize
  | readData (dataSz : Int) (seen : Option Reply)
  | stopSensors (dataSz : Int) (bytes : List UInt8)
  | newSensors (dataSz : Int) (bytes : List UInt8)
  deriving DecidableEq, Repr

/-- `sizeOf` and `dataOf` are ghosts: the replies whose size and whose bytes were stored last. -/
structure ReloadState where
  device : MainState
  com : EventPoint
  main : MainPoint
  sizeOf : Option Reply
  dataOf : Option Reply
  deriving DecidableEq, Repr

/-- A call of `event`, its next step, or the next step of the main loop with the answer of
`StopDynSensors`. -/
inductive ReloadInput
  | reply (reply : Reply)
  | event
  | main (stopped : Bool)
  deriving DecidableEq, Repr

/-- What can be seen: a reply is handled, the flag is set, a reload starts, and `NewDynSensors`
gets its arguments. -/
inductive ReloadObservation
  | handled (reply : Reply)
  | pending
  | started
  | applied (dataSz : Int) (bytes : List UInt8)
  deriving DecidableEq, Repr

def ReloadState.start (idCfg : List UInt8) (sz : Int) : ReloadState :=
  ⟨⟨idCfg,RamStorage.new calcStorageSz sz,false⟩,.idle,.test,none,none⟩

/-- The beginning of `event`, up to the test of the size. -/
def beginEvent (st : ReloadState) (reply : Reply) :
    Option (List ReloadObservation × ReloadState) :=
  match st.com with
  | .idle => do
      let id ← Buffer.load reply.data 0 40
      return ([.handled reply],{ st with
        device := { st.device with idCfg := id }
        com := if reply.dataSz ≠ 0 then .writeSize reply else .idle })
  | _ => none

/-- The next step of `event`. -/
def eventStep (st : ReloadState) : Option (List ReloadObservation × ReloadState) :=
  match st.com with
  | .idle => none
  | .writeSize reply => do
      let (err,calcStorage) ←
        st.device.calcStorage.write (intBytes reply.dataSz) 0 sizeofInt
      return ([],{ st with
        device := { st.device with calcStorage := calcStorage }
        com := if err = -1 then .idle else .writeData reply
        sizeOf := some reply })
  | .writeData reply => do
      let (err,calcStorage) ←
        st.device.calcStorage.write (reply.data.drop 40) 1 reply.dataSz
      return ([],{ st with
        device := { st.device with calcStorage := calcStorage }
        com := if err = -1 then .idle else .setPending
        dataOf := some reply })
  | .setPending =>
      some ([.pending],{ st with
        device := { st.device with newCalcPending := true }
        com := .idle })

/-- The next step of the main loop. -/
def mainStep (st : ReloadState) (stopped : Bool) :
    Option (List ReloadObservation × ReloadState) :=
  match st.main with
  | .test =>
      if st.device.newCalcPending = true then some ([.started],{ st with main := .clear })
      else some ([],st)
  | .clear =>
      some ([],{ st with
        device := { st.device with newCalcPending := false }
        main := .readSize })
  | .readSize => do
      let (_,bytes) ← st.device.calcStorage.read 0 sizeofInt
      return ([],{ st with main := .readData (intOfBytes bytes) st.sizeOf })
  | .readData dataSz _ => do
      let (_,bytes) ← st.device.calcStorage.read 1 dataSz
      return ([],{ st with main := .stopSensors dataSz bytes })
  | .stopSensors dataSz bytes =>
      some ([],{ st with main := if stopped = true then .newSensors dataSz bytes else .test })
  | .newSensors dataSz bytes => some ([.applied dataSz bytes],{ st with main := .test })

/-- `none` is a step that a thread cannot take where it stands, or a copy outside a buffer. -/
def reloadStep (st : ReloadState) : ReloadInput → Option (List ReloadObservation × ReloadState)
  | .reply reply => beginEvent st reply
  | .event => eventStep st
  | .main stopped => mainStep st stopped

/-- What `NewDynSensors` gets is the size and the bytes of one reply handled before. -/
def FromOneReply (before : List ReloadObservation) (o : ReloadObservation) : Prop :=
  ∀ dataSz bytes,o = .applied dataSz bytes →
    ∃ reply,.handled reply ∈ before ∧ dataSz = reply.dataSz ∧ bytes = reply.config

/-- The flag has been set since the last reload has started. -/
def setSinceStart (before : List ReloadObservation) : Bool :=
  before.foldl (fun set o => match o with
    | .pending => true
    | .started => false
    | _ => set) false

/-- A reload starts only if the flag has been set since the previous one. -/
def StartsWhenSet (before : List ReloadObservation) (o : ReloadObservation) : Prop :=
  o = .started → setSinceStart before = true

/-- At the data read, the bytes stored last belong to the reply whose size has been read. -/
def ReadsOneReply (st : ReloadState) : ReloadInput → Prop
  | .main _ => match st.main with
    | .readData _ seen => st.dataOf = seen
    | _ => True
  | _ => True

/-- The invariant behind the pairs that the main loop gets. -/
structure ReloadSound (trace : List ReloadObservation) (st : ReloadState) : Prop where
  store_length : st.device.calcStorage.b.length = calcStorageSz
  size : ∀ reply,st.sizeOf = some reply →
    st.device.calcStorage.sz = reply.dataSz ∧ .handled reply ∈ trace
  data : ∀ reply,st.dataOf = some reply →
    0 ≤ reply.dataSz ∧ st.device.calcStorage.b.take reply.dataSz.toNat = reply.config
  writing : ∀ reply,st.com = .writeSize reply ∨ st.com = .writeData reply →
    .handled reply ∈ trace
  stored : (∃ reply,st.com = .writeData reply) ∨ st.com = .setPending ∨
    st.device.newCalcPending = true ∨ st.main = .clear ∨ st.main = .readSize →
      st.sizeOf.isSome = true
  reading : ∀ dataSz seen,st.main = .readData dataSz seen →
    ∃ reply,seen = some reply ∧ dataSz = reply.dataSz ∧ .handled reply ∈ trace
  applying : ∀ dataSz bytes,
    st.main = .stopSensors dataSz bytes ∨ st.main = .newSensors dataSz bytes →
      ∃ reply,.handled reply ∈ trace ∧ dataSz = reply.dataSz ∧ bytes = reply.config
  justified : Transition.Justified FromOneReply trace

section

variable {trace output : List ReloadObservation} {st st' : ReloadState}

theorem ReloadSound.observe (hst : ReloadSound trace st) {o : ReloadObservation}
    (hbecause : FromOneReply trace o) : ReloadSound (trace ++ [o]) st := by
  have hmem {reply : Reply} (h : .handled reply ∈ trace) :
      ReloadObservation.handled reply ∈ trace ++ [o] := List.mem_append_left _ h
  refine ⟨hst.store_length,?_,hst.data,?_,hst.stored,?_,?_,
    Transition.justified_concat.mpr ⟨hst.justified,hbecause⟩⟩
  · intro reply hreply
    exact ⟨(hst.size reply hreply).1,hmem (hst.size reply hreply).2⟩
  · intro reply hreply
    exact hmem (hst.writing reply hreply)
  · intro dataSz seen hmain
    obtain ⟨reply,hseen,hsize,hhandled⟩ := hst.reading dataSz seen hmain
    exact ⟨reply,hseen,hsize,hmem hhandled⟩
  · intro dataSz bytes hmain
    obtain ⟨reply,hhandled,hpair⟩ := hst.applying dataSz bytes hmain
    exact ⟨reply,hmem hhandled,hpair⟩

/-- An observation that is not an application needs no reply. -/
theorem fromOneReply_of_ne {o : ReloadObservation}
    (hne : ∀ dataSz bytes,o ≠ .applied dataSz bytes) : FromOneReply trace o :=
  fun dataSz bytes happlied => absurd happlied (hne dataSz bytes)

theorem beginEvent_sound {reply : Reply} (hst : ReloadSound trace st)
    (hstep : beginEvent st reply = some (output,st')) : ReloadSound (trace ++ output) st' := by
  rw [beginEvent] at hstep
  split at hstep
  · rename_i hidle
    obtain ⟨id,-,hstep⟩ := Option.bind_eq_some_iff.mp hstep
    cases hstep
    have hobserved := hst.observe (o := .handled reply)
      (fromOneReply_of_ne fun _ _ h => by cases h)
    refine ⟨hobserved.store_length,hobserved.size,hobserved.data,?_,?_,hobserved.reading,
      hobserved.applying,hobserved.justified⟩
    · intro other hother
      have hsame : other = reply := by
        simp only at hother
        split at hother
        · rcases hother with h | h <;> cases h
          rfl
        · rcases hother with h | h <;> cases h
      rw [hsame]
      exact List.mem_append_right _ (List.mem_singleton_self _)
    · intro hpoint
      apply hst.stored
      simp only at hpoint
      split at hpoint <;> exact Or.inr (Or.inr (by simpa using hpoint))
  · cases hstep

/-- The size of a reply is stored. -/
theorem eventStep_size {reply : Reply} (hcom : st.com = .writeSize reply) :
    eventStep st = some ([],{ st with
      device := { st.device with calcStorage := { st.device.calcStorage with
        sz := reply.dataSz } }
      com := .writeData reply
      sizeOf := some reply }) := by
  have hlow := reply.ID_low
  have hhigh := reply.ID_high
  rw [xferBuffSz] at hhigh
  have hwrite : st.device.calcStorage.write (intBytes reply.dataSz) 0 sizeofInt =
      some (sizeofInt,{ st.device.calcStorage with sz := reply.dataSz }) :=
    RamStorage.write_size (by rw [Reply.dataSz]; omega) (by rw [Reply.dataSz]; omega)
  simp only [eventStep,hcom,hwrite,Option.bind_eq_bind,Option.bind_some]
  rw [if_neg (by decide)]
  rfl

/-- The bytes of a reply are stored, unless the size is negative. -/
theorem eventStep_data {reply : Reply} (hst : ReloadSound trace st)
    (hcom : st.com = .writeData reply) :
    eventStep st = none ∨ 0 ≤ reply.dataSz ∧ ∃ b,b.length = calcStorageSz ∧
      b.take reply.dataSz.toNat = reply.config ∧ eventStep st = some ([],{ st with
        device := { st.device with calcStorage := { st.device.calcStorage with b := b } }
        com := .setPending
        dataOf := some reply }) := by
  have hhigh := reply.ID_high
  have hdata := reply.data_length
  have hstore := hst.store_length
  rw [xferBuffSz] at hhigh hdata
  rw [calcStorageSz] at hstore
  by_cases hneg : reply.dataSz < 0
  · left
    simp only [eventStep,hcom,RamStorage.write_negative hneg,Option.bind_eq_bind]
    rfl
  · right
    obtain ⟨n,hn⟩ : ∃ n : Nat,reply.dataSz = n := ⟨reply.dataSz.toNat,by omega⟩
    have hID : reply.ID - 40 = n := hn
    have hdrop : n ≤ (reply.data.drop 40).length := by
      rw [List.length_drop]
      omega
    have htaken : ((reply.data.drop 40).take n).length = n := List.length_take_of_le hdrop
    have hwrite : st.device.calcStorage.write (reply.data.drop 40) 1 n = some ((n : Int),
        { st.device.calcStorage with
          b := (reply.data.drop 40).take n ++ st.device.calcStorage.b.drop n }) :=
      RamStorage.write_data hdrop (by omega)
    refine ⟨by omega,(reply.data.drop 40).take n ++ st.device.calcStorage.b.drop n,?_,?_,?_⟩
    · rw [List.length_append,htaken,List.length_drop,calcStorageSz]
      omega
    · rw [hn,Int.toNat_natCast,List.take_left' htaken,Reply.config,configurationOf,hID,
        Int.toNat_natCast]
    · simp only [eventStep,hcom,hn,hwrite,Option.bind_eq_bind,Option.bind_some]
      rw [if_neg (by omega)]
      rfl

theorem eventStep_sound (hst : ReloadSound trace st)
    (hstep : eventStep st = some (output,st')) : ReloadSound (trace ++ output) st' := by
  cases hcom : st.com with
  | idle =>
      rw [eventStep,hcom] at hstep
      cases hstep
  | writeSize reply =>
      rw [eventStep_size hcom] at hstep
      cases hstep
      rw [List.append_nil]
      have hhandled := hst.writing reply (Or.inl hcom)
      refine ⟨hst.store_length,?_,hst.data,?_,fun _ => rfl,hst.reading,hst.applying,
        hst.justified⟩
      · intro other hother
        cases hother
        exact ⟨rfl,hhandled⟩
      · rintro other (hother | hother) <;> cases hother
        exact hhandled
  | writeData reply =>
      rcases eventStep_data hst hcom with hnone | ⟨hsize,b,hlength,hbytes,hsome⟩
      · rw [hnone] at hstep
        cases hstep
      · rw [hsome] at hstep
        cases hstep
        rw [List.append_nil]
        refine ⟨hlength,hst.size,?_,?_,fun _ => hst.stored (Or.inl ⟨reply,hcom⟩),hst.reading,
          hst.applying,hst.justified⟩
        · intro other hother
          cases hother
          exact ⟨hsize,hbytes⟩
        · rintro other (hother | hother) <;> cases hother
  | setPending =>
      simp only [eventStep,hcom] at hstep
      cases hstep
      have hobserved := hst.observe (o := .pending)
        (fromOneReply_of_ne fun _ _ h => by cases h)
      refine ⟨hobserved.store_length,hobserved.size,hobserved.data,?_,
        fun _ => hst.stored (Or.inr (Or.inl hcom)),hobserved.reading,hobserved.applying,
        hobserved.justified⟩
      rintro other (hother | hother) <;> cases hother

/-- What the main loop has got when it comes to a place. -/
def Entitled (trace : List ReloadObservation) (st : ReloadState) : MainPoint → Prop
  | .test => True
  | .clear | .readSize => st.sizeOf.isSome = true
  | .readData dataSz seen =>
      ∃ reply,seen = some reply ∧ dataSz = reply.dataSz ∧ .handled reply ∈ trace
  | .stopSensors dataSz bytes | .newSensors dataSz bytes =>
      ∃ reply,.handled reply ∈ trace ∧ dataSz = reply.dataSz ∧ bytes = reply.config

/-- The main loop may go where it has got what that place asks for. -/
theorem ReloadSound.moveMain (hst : ReloadSound trace st) {main : MainPoint}
    (hentitled : Entitled trace st main) : ReloadSound trace { st with main := main } := by
  refine ⟨hst.store_length,hst.size,hst.data,hst.writing,?_,?_,?_,hst.justified⟩
  · rintro (hcom | hcom | hpending | rfl | rfl)
    · exact hst.stored (Or.inl hcom)
    · exact hst.stored (Or.inr (Or.inl hcom))
    · exact hst.stored (Or.inr (Or.inr (Or.inl hpending)))
    · exact hentitled
    · exact hentitled
  · rintro dataSz seen rfl
    exact hentitled
  · rintro dataSz bytes (rfl | rfl)
    · exact hentitled
    · exact hentitled

/-- Clearing the flag takes nothing away. -/
theorem ReloadSound.clearPending (hst : ReloadSound trace st) :
    ReloadSound trace { st with device := { st.device with newCalcPending := false } } := by
  refine ⟨hst.store_length,hst.size,hst.data,hst.writing,?_,hst.reading,hst.applying,
    hst.justified⟩
  rintro (hcom | hcom | hpending | hmain)
  · exact hst.stored (Or.inl hcom)
  · exact hst.stored (Or.inr (Or.inl hcom))
  · cases hpending
  · exact hst.stored (Or.inr (Or.inr (Or.inr hmain)))

/-- The size that the main loop reads is the one of the reply whose size is stored. -/
theorem readSize_sound (hst : ReloadSound trace st) (hmain : st.main = .readSize) :
    ∃ reply,st.sizeOf = some reply ∧ .handled reply ∈ trace ∧
      intOfBytes (intBytes st.device.calcStorage.sz) = reply.dataSz := by
  obtain ⟨reply,hreply⟩ := Option.isSome_iff_exists.mp
    (hst.stored (Or.inr (Or.inr (Or.inr (Or.inr hmain)))))
  obtain ⟨hsize,hhandled⟩ := hst.size reply hreply
  have hlow := reply.ID_low
  have hhigh := reply.ID_high
  rw [xferBuffSz] at hhigh
  refine ⟨reply,hreply,hhandled,?_⟩
  rw [hsize,intOfBytes_intBytes_of_range] <;> rw [Reply.dataSz] <;> omega

/-- The bytes that it reads are those of the reply whose bytes are stored. -/
theorem readData_sound (hst : ReloadSound trace st) {reply : Reply}
    (hreply : st.dataOf = some reply) :
    st.device.calcStorage.read 1 reply.dataSz = some (reply.dataSz,reply.config) := by
  obtain ⟨hsize,hbytes⟩ := hst.data reply hreply
  have hhigh := reply.ID_high
  have hlength := hst.store_length
  rw [xferBuffSz] at hhigh
  rw [calcStorageSz] at hlength
  obtain ⟨n,hn⟩ : ∃ n : Nat,reply.dataSz = n := ⟨reply.dataSz.toNat,by omega⟩
  have hID : reply.ID - 40 = n := hn
  rw [← hbytes,hn,RamStorage.read_data (by omega),Int.toNat_natCast]

/-- A pair that comes from one reply stays with the main loop until it is applied. -/
theorem mainStep_sound {stopped : Bool} (hst : ReloadSound trace st)
    (hread : ReadsOneReply st (.main stopped))
    (hstep : mainStep st stopped = some (output,st')) : ReloadSound (trace ++ output) st' := by
  cases hmain : st.main with
  | test =>
      simp only [mainStep,hmain] at hstep
      split at hstep
      · rename_i hpending
        cases hstep
        have hstored := hst.stored (Or.inr (Or.inr (Or.inl hpending)))
        exact (hst.observe (o := .started) (fromOneReply_of_ne fun _ _ h => by cases h)).moveMain
          hstored
      · cases hstep
        rw [List.append_nil]
        exact hst
  | clear =>
      simp only [mainStep,hmain] at hstep
      cases hstep
      rw [List.append_nil]
      have hstored := hst.stored (Or.inr (Or.inr (Or.inr (Or.inl hmain))))
      exact hst.clearPending.moveMain hstored
  | readSize =>
      obtain ⟨reply,hreply,hhandled,hsize⟩ := readSize_sound hst hmain
      simp only [mainStep,hmain,RamStorage.read_size,Option.bind_eq_bind,Option.bind_some]
        at hstep
      cases hstep
      rw [List.append_nil]
      exact hst.moveMain ⟨reply,hreply,hsize,hhandled⟩
  | readData dataSz seen =>
      obtain ⟨reply,rfl,rfl,hhandled⟩ := hst.reading dataSz seen hmain
      have hreply : st.dataOf = some reply := by
        simpa only [ReadsOneReply,hmain] using hread
      simp only [mainStep,hmain,readData_sound hst hreply,Option.bind_eq_bind,Option.bind_some]
        at hstep
      cases hstep
      rw [List.append_nil]
      exact hst.moveMain ⟨reply,hhandled,rfl,rfl⟩
  | stopSensors dataSz bytes =>
      have hpair := hst.applying dataSz bytes (Or.inl hmain)
      simp only [mainStep,hmain] at hstep
      cases hstep
      rw [List.append_nil]
      cases stopped with
      | true => exact hst.moveMain hpair
      | false => exact hst.moveMain trivial
  | newSensors dataSz bytes =>
      have hpair := hst.applying dataSz bytes (Or.inr hmain)
      simp only [mainStep,hmain] at hstep
      cases hstep
      have hbecause : FromOneReply trace (.applied dataSz bytes) := by
        intro dataSz' bytes' happlied
        cases happlied
        exact hpair
      exact (hst.observe hbecause).moveMain trivial

theorem reloadStep_sound {input : ReloadInput} (hst : ReloadSound trace st)
    (hread : ReadsOneReply st input) (hstep : reloadStep st input = some (output,st')) :
    ReloadSound (trace ++ output) st' := by
  cases input with
  | reply reply => exact beginEvent_sound hst hstep
  | event => exact eventStep_sound hst hstep
  | main stopped => exact mainStep_sound hst hread hstep

theorem start_reload_sound (idCfg : List UInt8) (sz : Int) :
    ReloadSound [] (ReloadState.start idCfg sz) := by
  refine ⟨List.length_replicate,?_,?_,?_,?_,?_,?_,Transition.justified_nil⟩
  · exact fun _ h => by cases h
  · exact fun _ h => by cases h
  · rintro reply (h | h) <;> cases h
  · rintro (⟨reply,h⟩ | h | h | h | h) <;> cases h
  · exact fun _ _ h => by cases h
  · rintro dataSz bytes (h | h) <;> cases h

/-- While the flag is set and not about to be cleared, it has been set since the last start. -/
structure StartsSound (trace : List ReloadObservation) (st : ReloadState) : Prop where
  set : st.device.newCalcPending = true → st.main = .clear ∨ setSinceStart trace = true
  justified : Transition.Justified StartsWhenSet trace

theorem setSinceStart_concat (trace : List ReloadObservation) (o : ReloadObservation) :
    setSinceStart (trace ++ [o]) = match o with
      | .pending => true
      | .started => false
      | _ => setSinceStart trace := by
  rw [setSinceStart,List.foldl_append]
  rfl

theorem StartsSound.observe (hst : StartsSound trace st) {o : ReloadObservation}
    (hbecause : StartsWhenSet trace o) : Transition.Justified StartsWhenSet (trace ++ [o]) :=
  Transition.justified_concat.mpr ⟨hst.justified,hbecause⟩

/-- A step of `event` that sets no flag. -/
theorem StartsSound.keep (hst : StartsSound trace st)
    (hpending : st'.device.newCalcPending = st.device.newCalcPending)
    (hmain : st'.main = st.main) : StartsSound trace st' := by
  refine ⟨?_,hst.justified⟩
  rw [hpending,hmain]
  exact hst.set

theorem eventStep_starts (hst : StartsSound trace st)
    (hstep : eventStep st = some (output,st')) : StartsSound (trace ++ output) st' := by
  cases hcom : st.com with
  | idle =>
      rw [eventStep,hcom] at hstep
      cases hstep
  | writeSize reply =>
      simp only [eventStep,hcom] at hstep
      obtain ⟨written,-,hstep⟩ := Option.bind_eq_some_iff.mp hstep
      cases hstep
      rw [List.append_nil]
      exact hst.keep rfl rfl
  | writeData reply =>
      simp only [eventStep,hcom] at hstep
      obtain ⟨written,-,hstep⟩ := Option.bind_eq_some_iff.mp hstep
      cases hstep
      rw [List.append_nil]
      exact hst.keep rfl rfl
  | setPending =>
      simp only [eventStep,hcom] at hstep
      cases hstep
      refine ⟨fun _ => Or.inr ?_,hst.observe fun h => by cases h⟩
      rw [setSinceStart_concat]

/-- A step of the main loop from a place where the flag is not about to be cleared. -/
theorem StartsSound.leave (hst : StartsSound trace st) (hmain : st.main ≠ .clear)
    (hpending : st'.device.newCalcPending = st.device.newCalcPending) :
    StartsSound trace st' := by
  refine ⟨?_,hst.justified⟩
  intro hset
  rw [hpending] at hset
  rcases hst.set hset with hclear | hsince
  · exact absurd hclear hmain
  · exact Or.inr hsince

theorem mainStep_starts {stopped : Bool} (hst : StartsSound trace st)
    (hstep : mainStep st stopped = some (output,st')) : StartsSound (trace ++ output) st' := by
  cases hmain : st.main with
  | test =>
      simp only [mainStep,hmain] at hstep
      split at hstep
      · rename_i hpending
        cases hstep
        refine ⟨fun _ => Or.inl rfl,hst.observe fun _ => ?_⟩
        rcases hst.set hpending with hclear | hsince
        · rw [hmain] at hclear
          cases hclear
        · exact hsince
      · cases hstep
        rw [List.append_nil]
        exact hst
  | clear =>
      simp only [mainStep,hmain] at hstep
      cases hstep
      rw [List.append_nil]
      exact ⟨fun h => (by cases h),hst.justified⟩
  | readSize =>
      simp only [mainStep,hmain] at hstep
      obtain ⟨read,-,hstep⟩ := Option.bind_eq_some_iff.mp hstep
      cases hstep
      rw [List.append_nil]
      exact hst.leave (by rw [hmain]; exact fun h => by cases h) rfl
  | readData dataSz seen =>
      simp only [mainStep,hmain] at hstep
      obtain ⟨read,-,hstep⟩ := Option.bind_eq_some_iff.mp hstep
      cases hstep
      rw [List.append_nil]
      exact hst.leave (by rw [hmain]; exact fun h => by cases h) rfl
  | stopSensors dataSz bytes =>
      simp only [mainStep,hmain] at hstep
      cases hstep
      rw [List.append_nil]
      exact hst.leave (by rw [hmain]; exact fun h => by cases h) rfl
  | newSensors dataSz bytes =>
      simp only [mainStep,hmain] at hstep
      cases hstep
      have hleft := hst.leave (by rw [hmain]; exact fun h => by cases h)
        (show ({ st with main := MainPoint.test } : ReloadState).device.newCalcPending =
          st.device.newCalcPending from rfl)
      refine ⟨?_,hst.observe fun h => by cases h⟩
      rw [setSinceStart_concat]
      exact hleft.set

theorem reloadStep_starts {input : ReloadInput} (hst : StartsSound trace st)
    (hstep : reloadStep st input = some (output,st')) : StartsSound (trace ++ output) st' := by
  cases input with
  | reply reply =>
      simp only [reloadStep,beginEvent] at hstep
      split at hstep
      · obtain ⟨id,-,hstep⟩ := Option.bind_eq_some_iff.mp hstep
        cases hstep
        refine ⟨?_,hst.observe fun h => by cases h⟩
        rw [setSinceStart_concat]
        exact hst.set
      · cases hstep
  | event => exact eventStep_starts hst hstep
  | main stopped => exact mainStep_starts hst hstep

end

/-- In every run, a reload starts only when the flag has been set since the previous one; and
what is applied is the size and the bytes of one reply as long as every data read finds the
bytes of the reply whose size has been read. -/
theorem reload_not_torn (idCfg : List UInt8) (sz : Int) (inputs : List ReloadInput)
    (outputs : List (List ReloadObservation)) (st : ReloadState)
    (hrun : Transition.run reloadStep (ReloadState.start idCfg sz) inputs = some (outputs,st)) :
    Transition.Justified StartsWhenSet outputs.flatten ∧
      (Transition.Meets reloadStep ReadsOneReply (ReloadState.start idCfg sz) inputs →
        Transition.Justified FromOneReply outputs.flatten) := by
  constructor
  · have hmeets : Transition.Meets reloadStep (fun _ _ => True) (ReloadState.start idCfg sz)
        inputs := Transition.meets_of_forall_mem (fun _ _ _ => trivial) _
    have hstart : StartsSound [] (ReloadState.start idCfg sz) :=
      ⟨fun h => (by cases h),Transition.justified_nil⟩
    have hsound := Transition.run_observes
      (fun trace s input output s' hs _ hstep => reloadStep_starts hs hstep) inputs
      (ReloadState.start idCfg sz) [] hstart hmeets hrun
    exact hsound.justified
  · intro hmeets
    have hsound := Transition.run_observes
      (fun trace s input output s' hs hok hstep => reloadStep_sound hs hok hstep) inputs
      (ReloadState.start idCfg sz) [] (start_reload_sound idCfg sz) hmeets hrun
    exact hsound.justified

/-- Taken without interruption, the steps of the communication thread are `event`. -/
theorem run_event {st : ReloadState} {reply : Reply} (hidle : st.com = .idle)
    (hsize : 0 < reply.dataSz) (hstore : st.device.calcStorage.b.length = calcStorageSz) :
    ∃ handled,event st.device reply.ID reply.data = some handled ∧
      Transition.run reloadStep st [.reply reply,.event,.event,.event] =
        some ([[.handled reply],[],[],[.pending]],{ st with
          device := handled.state
          sizeOf := some reply
          dataOf := some reply }) := by
  have hhigh := reply.ID_high
  have hdata := reply.data_length
  rw [xferBuffSz] at hhigh hdata
  rw [calcStorageSz] at hstore
  rw [Reply.dataSz] at hsize
  obtain ⟨n,hID⟩ : ∃ n : Nat,reply.ID = ((40 + n : Nat) : Int) := ⟨(reply.ID - 40).toNat,by omega⟩
  have hn : reply.dataSz = n := by
    rw [Reply.dataSz]
    omega
  have hevent := @event_of_config st.device reply.data n (by omega) (by omega) (by omega)
    (by omega)
  have hid : Buffer.load reply.data 0 ((40 : Nat) : Int) = some (reply.data.take 40) :=
    Buffer.load_zero_of_le (by omega)
  have hbuffer : n ≤ (reply.data.drop 40).length := by
    rw [List.length_drop]
    omega
  have hwrite : (⟨st.device.calcStorage.b,n⟩ : RamStorage).write (reply.data.drop 40) 1 n =
      some ((n : Int),⟨(reply.data.drop 40).take n ++ st.device.calcStorage.b.drop n,n⟩) :=
    RamStorage.write_data hbuffer (show n ≤ st.device.calcStorage.b.length by omega)
  let named : MainState := { st.device with idCfg := reply.data.take 40 }
  let sized : MainState := { named with calcStorage := { named.calcStorage with sz := n } }
  let stored : MainState := { named with
    calcStorage := ⟨(reply.data.drop 40).take n ++ st.device.calcStorage.b.drop n,n⟩ }
  have hbegin : reloadStep st (.reply reply) =
      some ([.handled reply],{ st with device := named, com := .writeSize reply }) := by
    rw [Nat.cast_ofNat] at hid
    simp only [reloadStep,beginEvent,hidle,hid,Option.bind_eq_bind,Option.bind_some]
    rw [if_pos (by omega)]
    rfl
  have hsized : reloadStep { st with device := named, com := .writeSize reply } .event =
      some ([],{ st with device := sized, com := .writeData reply, sizeOf := some reply }) := by
    rw [reloadStep,eventStep_size rfl,hn]
  have hstored : reloadStep { st with
      device := sized, com := .writeData reply, sizeOf := some reply } .event =
        some ([],{ st with
          device := stored, com := .setPending, sizeOf := some reply, dataOf := some reply }) := by
    simp only [reloadStep,eventStep,hn,sized,named,hwrite,Option.bind_eq_bind,Option.bind_some]
    rw [if_neg (by omega)]
    rfl
  refine ⟨_,by rw [hID]; exact hevent,?_⟩
  apply (Transition.run_cons_eq_some_iff hbegin).mpr
  refine ⟨_,rfl,(Transition.run_cons_eq_some_iff hsized).mpr ⟨_,rfl,?_⟩⟩
  refine (Transition.run_cons_eq_some_iff hstored).mpr ⟨_,rfl,?_⟩
  rw [hidle]
  rfl

section

/-- Two replies in the receive buffer: three bytes of configuration, and two. -/
def firstReply : Reply where
  ID := 43
  data := List.replicate 40 0 ++ [1,2,3] ++ List.replicate 469 0
  ID_low := by decide
  ID_high := by decide
  data_length := by decide +kernel

def secondReply : Reply where
  ID := 42
  data := List.replicate 40 0 ++ [4,5] ++ List.replicate 470 0
  ID_low := by decide
  ID_high := by decide
  data_length := by decide +kernel

/-- One reply, one reload. -/
def quietRun : List ReloadInput :=
  [.reply firstReply,.event,.event,.event,.main true,.main true,.main true,.main true,.main true,
    .main true]

/-- The second reply is stored between the two reads of the main loop. -/
def tornRun : List ReloadInput :=
  [.reply firstReply,.event,.event,.event,.main true,.main true,.main true,.reply secondReply,
    .event,.event,.main true,.main true,.main true]

theorem reload_not_torn_quiet : ∃ outputs st,
    Transition.run reloadStep (ReloadState.start [] 0) quietRun = some (outputs,st) ∧
      Transition.Justified StartsWhenSet outputs.flatten ∧
        (Transition.Meets reloadStep ReadsOneReply (ReloadState.start [] 0) quietRun →
          Transition.Justified FromOneReply outputs.flatten) := by
  have hsome : (Transition.run reloadStep (ReloadState.start [] 0) quietRun).isSome = true := by
    decide +kernel
  obtain ⟨⟨outputs,st⟩,hrun⟩ := Option.isSome_iff_exists.mp hsome
  exact ⟨outputs,st,hrun,reload_not_torn [] 0 quietRun outputs st hrun⟩

/-- The second reply is stored between the two reads: its two bytes are applied with a third
byte that is left from the first one. -/
theorem reload_torn : ∃ outputs st,
    Transition.run reloadStep (ReloadState.start [] 0) tornRun = some (outputs,st) ∧
      ¬Transition.Justified FromOneReply outputs.flatten := by
  have hrun : (Transition.run reloadStep (ReloadState.start [] 0) tornRun).map
      (fun reached => reached.1.flatten) = some ([.handled firstReply,.pending,.started,
        .handled secondReply] ++ [.applied 3 [4,5,3]]) := by decide +kernel
  obtain ⟨⟨outputs,st⟩,hrun,htrace⟩ := Option.map_eq_some_iff.mp hrun
  refine ⟨outputs,st,hrun,?_⟩
  rw [htrace]
  intro hjustified
  obtain ⟨reply,hhandled,hsize,hbytes⟩ := (Transition.justified_concat.mp hjustified).2 3 [4,5,3]
    rfl
  simp only [List.mem_cons,ReloadObservation.handled.injEq,reduceCtorEq,List.not_mem_nil,or_false,
    false_or] at hhandled
  rcases hhandled with rfl | rfl
  · revert hbytes
    decide +kernel
  · revert hsize
    decide

end

end Pyrn.Device
