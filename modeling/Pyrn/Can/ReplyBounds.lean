import Pyrn.Can.DiagSensor

/-!
# The copies of a reply

Both communicators copy bytes of the frames that arrive into the response array of their caller,
and take the numbers of bytes from the frames. The callers have arrays of two sizes.
-/

namespace Pyrn.Can

/-- A `memcpy` of some bytes of a frame, from an offset in its data to one in the response. -/
structure Copy where
  source : Nat
  target : Nat
  count : Nat
  deriving DecidableEq, Repr

/-- The copy reads no byte behind the eight of the frame, and writes none behind the response. -/
def Copy.Inside (responseSz : Nat) (copy : Copy) : Prop :=
  copy.source + copy.count ≤ 8 ∧ copy.target + copy.count ≤ responseSz

instance (responseSz : Nat) : DecidablePred (Copy.Inside responseSz) := fun copy =>
  inferInstanceAs (Decidable (copy.source + copy.count ≤ 8 ∧ copy.target + copy.count ≤ responseSz))

namespace CANCommunicator6A

/-- The copy that a round of the loop makes. -/
def copyOf (st : Execution) : OsEvent → Option Copy
  | .message msg =>
      match st.state with
      | .idle =>
          if msg.byte 0 &&& 0xF0 = 0x00 then some ⟨1,0,(msg.byte 0).toNat⟩
          else if msg.byte 0 = 0x10 then some ⟨2,0,6⟩
          else none
      | .extCmd =>
          if msg.byte 0 &&& 0xF0 = 0x20 then
            let payloadSz := if (st.respLen.toNat : Int) - st.currLen.toNat < 7 then
              st.respLen - st.currLen else 7
            some ⟨1,st.currLen.toNat,payloadSz.toNat⟩
          else none
  | _ => none

/-- The copies of a call, up to its end or its first fault. -/
def copies (calculator : CANDiagCalculator) : Execution → List OsEvent → List Copy
  | _, [] => []
  | st, evt :: evts =>
      (copyOf st evt).toList ++
        match onEvent calculator st evt with
        | some (.waiting next,_) => copies calculator next evts
        | _ => []

end CANCommunicator6A

/-- The copy of the one event that `CANCommunicator68::ExecuteCommand` waits for. -/
def CANCommunicator68.copies : List OsEvent → List Copy
  | .message msg :: _ => [⟨1,0,(msg.byte 0).toNat⟩]
  | _ => []

/-- The functions that call `ExecuteCommand`. -/
inductive DiagCaller
  | diagStart
  | keepAliveSequence
  | diagSequence
  deriving DecidableEq, Repr

/-- The size of the array `response` of the caller. -/
def DiagCaller.responseSz : DiagCaller → Nat
  | diagStart => 32
  | keepAliveSequence => 32
  | diagSequence => 64

/-- The copies that a call of `ExecuteCommand` makes on the events that it sees. -/
def replyCopies (kind : DiagKind) (com : CANCommunicatorMaster) (caller : DiagCaller)
    (evts : List OsEvent) : List Copy :=
  match kind with
  | .diag6A => CANCommunicator6A.copies com.calculator
      (CANCommunicator6A.start (List.replicate caller.responseSz 0)) evts
  | .diag68 => CANCommunicator68.copies evts

/-- A message that goes on with an extended reply. -/
def OsEvent.continues : OsEvent → Bool
  | .message msg => msg.byte 0 &&& 0xF0 = 0x20
  | _ => false

/-- The continuation frames that come before the wait ends. -/
def continuations (evts : List OsEvent) : Nat :=
  (evts.takeWhile fun evt => evt ≠ .timeout).countP OsEvent.continues

/-- An event that leaves the 6A communicator in its idle state; `ack` is what the search for the
acknowledge command gives. -/
def OsEvent.passedOver (ack : Option (Option CANMessage)) : OsEvent → Bool
  | .message msg => msg.byte 0 &&& 0xF0 ≠ 0x00 ∧ (msg.byte 0 = 0x10 → ack = some none)
  | .timeout => false
  | .other => true

/-- Short replies have at most the seven bytes of their frame. The length of an extended reply is
not smaller than the six bytes of its first frame, and what its continuation frames bring fits
into the response. -/
def ReplyFits (kind : DiagKind) (ack : Option (Option CANMessage)) (responseSz : Nat)
    (evts : List OsEvent) : Prop :=
  match kind with
  | .diag6A =>
      match evts.dropWhile (OsEvent.passedOver ack) with
      | .message msg :: later =>
          if msg.byte 0 &&& 0xF0 = 0x00 then (msg.byte 0).toNat ≤ 7
          else ack ≠ none → continuations later ≠ 0 → 6 ≤ (msg.byte 1).toNat ∧
            min (msg.byte 1).toNat (6 + 7 * continuations later) ≤ responseSz
      | _ => True
  | .diag68 =>
      match evts with
      | .message msg :: _ => (msg.byte 0).toNat ≤ 7
      | _ => True

section Rounds

variable {calculator : CANDiagCalculator} {st : Execution} {msg : CANMessage}

theorem copyOf_short (hstate : st.state = .idle) (hshort : msg.byte 0 &&& 0xF0 = 0x00) :
    CANCommunicator6A.copyOf st (.message msg) = some ⟨1,0,(msg.byte 0).toNat⟩ := by
  simp only [CANCommunicator6A.copyOf,hstate,if_pos hshort]

theorem copyOf_first (hstate : st.state = .idle) (hshort : ¬msg.byte 0 &&& 0xF0 = 0x00)
    (hfirst : msg.byte 0 = 0x10) :
    CANCommunicator6A.copyOf st (.message msg) = some ⟨2,0,6⟩ := by
  simp only [CANCommunicator6A.copyOf,hstate,if_neg hshort,if_pos hfirst]

theorem copyOf_unhandled (hstate : st.state = .idle) (hshort : ¬msg.byte 0 &&& 0xF0 = 0x00)
    (hfirst : ¬msg.byte 0 = 0x10) : CANCommunicator6A.copyOf st (.message msg) = none := by
  simp only [CANCommunicator6A.copyOf,hstate,if_neg hshort,if_neg hfirst]

theorem copyOf_continuation (hstate : st.state = .extCmd) (hhead : msg.byte 0 &&& 0xF0 = 0x20)
    {size : Nat} (hsize : (if (st.respLen.toNat : Int) - st.currLen.toNat < 7 then
      st.respLen - st.currLen else 7 : UInt8).toNat = size) :
    CANCommunicator6A.copyOf st (.message msg) = some ⟨1,st.currLen.toNat,size⟩ := by
  simp only [CANCommunicator6A.copyOf,hstate,if_pos hhead,hsize]

theorem copyOf_wrong (hstate : st.state = .extCmd) (hhead : ¬msg.byte 0 &&& 0xF0 = 0x20) :
    CANCommunicator6A.copyOf st (.message msg) = none := by
  simp only [CANCommunicator6A.copyOf,hstate,if_neg hhead]

theorem onEvent_idle (hstate : st.state = .idle) :
    CANCommunicator6A.onEvent calculator st (.message msg) =
      CANCommunicator6A.onIdle calculator st msg := by
  rw [CANCommunicator6A.onEvent,hstate]

theorem onEvent_extCmd (hstate : st.state = .extCmd) :
    CANCommunicator6A.onEvent calculator st (.message msg) =
      CANCommunicator6A.onExtCmd st msg := by
  rw [CANCommunicator6A.onEvent,hstate]

theorem startsSegmented_iff (hstate : st.state = .idle) :
    startsSegmented st (.message msg) = true ↔
      ¬msg.byte 0 &&& 0xF0 = 0x00 ∧ msg.byte 0 = 0x10 := by
  rw [startsSegmented,decide_eq_true_iff]
  exact ⟨fun h => h.2,fun h => ⟨hstate,h⟩⟩

/-- A round of the loop faults exactly when its copy leaves the frame or the response, or when
the search for the acknowledge command does. -/
theorem onEvent_eq_none_iff (evt : OsEvent) :
    CANCommunicator6A.onEvent calculator st evt = none ↔
      (∃ copy, CANCommunicator6A.copyOf st evt = some copy ∧ ¬copy.Inside st.response.length) ∨
        startsSegmented st evt = true ∧ CANCommunicator6A.ackMessage calculator = none := by
  cases evt with
  | timeout => simp [CANCommunicator6A.onEvent,CANCommunicator6A.copyOf,startsSegmented]
  | other => simp [CANCommunicator6A.onEvent,CANCommunicator6A.copyOf,startsSegmented]
  | message msg =>
    cases hstate : st.state with
    | idle =>
      rw [onEvent_idle hstate]
      by_cases hshort : msg.byte 0 &&& 0xF0 = 0x00
      · have hstarts : ¬startsSegmented st (.message msg) = true :=
          fun h => ((startsSegmented_iff hstate).mp h).1 hshort
        simp only [copyOf_short hstate hshort,Option.some.injEq,exists_eq_left',hstarts,
          Bool.false_eq_true,false_and,or_false,Copy.Inside,Nat.zero_add]
        rcases @CANCommunicator6A.onIdle_short_cases calculator st msg hshort with
          ⟨hnone,hout⟩ | ⟨last,hsome,hin,-⟩
        · exact iff_of_true hnone hout
        · refine iff_of_false ?_ (not_not.mpr hin)
          rw [hsome]
          exact Option.some_ne_none _
      · by_cases hfirst : msg.byte 0 = 0x10
        · have hstarts := (startsSegmented_iff hstate).mpr ⟨hshort,hfirst⟩
          simp only [copyOf_first hstate hshort hfirst,Option.some.injEq,exists_eq_left',hstarts,
            true_and,Copy.Inside,Nat.zero_add]
          rcases @CANCommunicator6A.onIdle_first_cases calculator st msg hshort hfirst with
            ⟨hnone,hout⟩ | ⟨next,-,hsix,hstep⟩
          · refine iff_of_true hnone ?_
            by_cases hack : CANCommunicator6A.ackMessage calculator = none
            · exact .inr hack
            · exact .inl fun hin => hout ⟨by omega,hack⟩
          · rcases hstep with ⟨hack,-,hstep⟩ | ⟨ack,hack,-,hstep⟩
            · rw [hstep,hack]
              simp [hsix]
            · rw [hstep,hack]
              simp [hsix]
        · have hstarts : ¬startsSegmented st (.message msg) = true :=
            fun h => hfirst ((startsSegmented_iff hstate).mp h).2
          rw [copyOf_unhandled hstate hshort hfirst,CANCommunicator6A.onIdle,if_neg hshort,
            if_neg hfirst]
          simp [hstarts]
    | extCmd =>
      have hidle : startsSegmented st (.message msg) = false := by
        simp [startsSegmented,hstate]
      rw [onEvent_extCmd hstate,hidle]
      by_cases hhead : msg.byte 0 &&& 0xF0 = 0x20
      · rw [CANCommunicator6A.onExtCmd_eq_none_iff hhead rfl,copyOf_continuation hstate hhead rfl]
        simp [Copy.Inside]
      · rw [copyOf_wrong hstate hhead,CANCommunicator6A.onExtCmd,if_neg hhead]
        simp

end Rounds

section Loop

variable {calculator : CANDiagCalculator} {st next : Execution} {evt : OsEvent}
  {evts later : List OsEvent} {sent : List CANMessage} {cap : Nat}

/-- All copies of a call are inside. -/
def Contained (calculator : CANDiagCalculator) (cap : Nat) (st : Execution)
    (evts : List OsEvent) : Prop :=
  ∀ copy ∈ CANCommunicator6A.copies calculator st evts, copy.Inside cap

theorem contained_waiting
    (h : CANCommunicator6A.onEvent calculator st evt = some (.waiting next,sent)) :
    Contained calculator cap st (evt :: later) ↔
      (∀ copy, CANCommunicator6A.copyOf st evt = some copy → copy.Inside cap) ∧
        Contained calculator cap next later := by
  rw [Contained,CANCommunicator6A.copies,h]
  simp only [List.mem_append,Option.mem_toList,or_imp,forall_and]
  rfl

theorem contained_last
    (h : ∀ next sent, CANCommunicator6A.onEvent calculator st evt ≠ some (.waiting next,sent)) :
    Contained calculator cap st (evt :: later) ↔
      ∀ copy, CANCommunicator6A.copyOf st evt = some copy → copy.Inside cap := by
  have hrest : CANCommunicator6A.copies calculator st (evt :: later) =
      (CANCommunicator6A.copyOf st evt).toList := by
    rw [CANCommunicator6A.copies]
    split
    · rename_i next sent hevent
      exact absurd hevent (h next sent)
    · exact List.append_nil _
  rw [Contained,hrest]
  simp only [Option.mem_toList]

theorem continuations_cons (hwait : evt ≠ .timeout) (later : List OsEvent) :
    continuations (evt :: later) =
      continuations later + if evt.continues = true then 1 else 0 := by
  rw [continuations,continuations,List.takeWhile_cons_of_pos (by simpa using hwait),
    List.countP_cons]

/-- A continuation frame whose copy leaves the frame or the response ends the call. -/
theorem not_contained_fault {copy : Copy}
    (hcopy : CANCommunicator6A.copyOf st evt = some copy) (hout : ¬copy.Inside cap)
    (hroom : st.response.length = cap) : ¬Contained calculator cap st (evt :: later) := by
  have hfault : CANCommunicator6A.onEvent calculator st evt = none := by
    rw [onEvent_eq_none_iff,hroom]
    exact .inl ⟨copy,hcopy,hout⟩
  rw [contained_last (by rw [hfault]; exact fun _ _ h => nomatch h)]
  exact fun hall => hout (hall copy hcopy)

theorem contained_timeout : Contained calculator cap st (.timeout :: later) := by
  rw [contained_last (fun next sent h => by cases h)]
  intro copy hcopy
  cases hcopy

/-- A continuation frame is not copied when the declared length is below what has been copied:
the difference of the two bytes wraps. -/
theorem not_contained_wrapped {msg : CANMessage} (hstate : st.state = .extCmd)
    (hhead : msg.byte 0 &&& 0xF0 = 0x20) (hless : st.respLen.toNat < st.currLen.toNat)
    (hsix : st.currLen.toNat = 6) (hroom : st.response.length = cap) :
    ¬Contained calculator cap st (.message msg :: later) := by
  have hwrapped : 8 ≤ (st.respLen - st.currLen).toNat := by
    rw [UInt8.toNat_sub]
    omega
  apply not_contained_fault (copyOf_continuation hstate hhead (by rw [if_pos (by omega)])) _ hroom
  dsimp only [Copy.Inside]
  omega

theorem not_contained_overflow {msg : CANMessage} (hstate : st.state = .extCmd)
    (hhead : msg.byte 0 &&& 0xF0 = 0x20) (hle : st.currLen.toNat ≤ st.respLen.toNat)
    (hfull : cap < st.currLen.toNat + min 7 (st.respLen.toNat - st.currLen.toNat))
    (hroom : st.response.length = cap) :
    ¬Contained calculator cap st (.message msg :: later) := by
  apply not_contained_fault
    (copyOf_continuation hstate hhead (CANCommunicator6A.payloadSz_toNat hle)) _ hroom
  dsimp only [Copy.Inside]
  omega

/-- A continuation frame that is copied inside ends the call or goes on seven bytes further. -/
theorem contained_continuation {msg : CANMessage} (hstate : st.state = .extCmd)
    (hhead : msg.byte 0 &&& 0xF0 = 0x20) (hle : st.currLen.toNat ≤ st.respLen.toNat)
    (hfits : st.currLen.toNat + min 7 (st.respLen.toNat - st.currLen.toNat) ≤ cap)
    (hroom : st.response.length = cap) :
    (st.respLen.toNat ≤ st.currLen.toNat + 7 ∧
        Contained calculator cap st (.message msg :: later)) ∨
      ∃ next, st.currLen.toNat + 7 < st.respLen.toNat ∧ next.state = .extCmd ∧
        next.respLen = st.respLen ∧ next.currLen.toNat = st.currLen.toNat + 7 ∧
        next.response.length = cap ∧
        (Contained calculator cap st (.message msg :: later) ↔
          Contained calculator cap next later) := by
  have hinside : ∀ copy, CANCommunicator6A.copyOf st (.message msg) = some copy →
      copy.Inside cap := by
    intro copy hsome
    rw [copyOf_continuation hstate hhead (CANCommunicator6A.payloadSz_toNat hle)] at hsome
    cases hsome
    dsimp only [Copy.Inside]
    omega
  obtain ⟨next,hnextState,hrespLen,hcurrLen,hresponse,-,hstep⟩ :=
    CANCommunicator6A.onExtCmd_continuation hhead hle rfl (by rw [hroom]; exact hfits)
  rw [← @onEvent_extCmd calculator st msg hstate] at hstep
  by_cases hlast : st.respLen.toNat ≤ st.currLen.toNat + 7
  · rw [if_pos hlast] at hstep
    refine .inl ⟨hlast,?_⟩
    rw [contained_last (by rw [hstep]; exact fun _ _ h => nomatch h)]
    exact hinside
  · rw [if_neg hlast] at hstep
    refine .inr ⟨next,by omega,hnextState.trans hstate,hrespLen,?_,?_,?_⟩
    · rw [hcurrLen]
      omega
    · rw [hresponse,Buffer.splice_length,hroom]
      rw [List.length_take,List.length_drop,msg.data_length]
      omega
    · rw [contained_waiting hstep]
      exact and_iff_right hinside

/-- A frame that goes on with nothing is passed over. -/
theorem contained_wrong {msg : CANMessage} (hstate : st.state = .extCmd)
    (hhead : ¬msg.byte 0 &&& 0xF0 = 0x20) :
    Contained calculator cap st (.message msg :: later) ↔ Contained calculator cap st later := by
  have hstep : CANCommunicator6A.onEvent calculator st (.message msg) =
      some (.waiting st,[]) := by
    rw [onEvent_extCmd hstate,CANCommunicator6A.onExtCmd,if_neg hhead]
  rw [contained_waiting hstep,copyOf_wrong hstate hhead]
  exact and_iff_right fun copy hcopy => by cases hcopy

/-- Behind a first frame: the copies stay inside when the declared length is not below what has
been copied, and the continuation frames bring no more than there is room for. -/
theorem contained_following {copied : Nat} (hstate : st.state = .extCmd)
    (hcopied : st.currLen.toNat = copied) (hle : copied ≤ st.respLen.toNat ∨ copied = 6)
    (hroom : st.response.length = cap) :
    Contained calculator cap st evts ↔ (continuations evts ≠ 0 → copied ≤ st.respLen.toNat ∧
      min st.respLen.toNat (copied + 7 * continuations evts) ≤ cap) := by
  induction evts generalizing st copied with
  | nil => exact iff_of_true (fun _ hmem => absurd hmem List.not_mem_nil) fun h => absurd rfl h
  | cons evt later ih =>
    cases evt with
    | timeout => exact iff_of_true contained_timeout fun h => absurd rfl h
    | other =>
      have hstep : CANCommunicator6A.onEvent calculator st .other = some (.waiting st,[]) := rfl
      rw [contained_waiting hstep,ih hstate hcopied hle hroom,
        continuations_cons (by simp) later]
      exact and_iff_right fun copy hcopy => by cases hcopy
    | message msg =>
      rw [continuations_cons (by simp) later]
      by_cases hhead : msg.byte 0 &&& 0xF0 = 0x20
      · have hcontinues : OsEvent.continues (.message msg) = true := by
          simp [OsEvent.continues,hhead]
        rw [if_pos hcontinues]
        by_cases hless : copied ≤ st.respLen.toNat
        · by_cases hfits : copied + min 7 (st.respLen.toNat - copied) ≤ cap
          · rcases @contained_continuation calculator st later cap msg hstate hhead
              (by omega) (by rw [hcopied]; exact hfits) hroom with
              ⟨hlast,hcontained⟩ | ⟨next,hmore,hnextState,hrespLen,hcurrLen,hlength,hnext⟩
            · refine iff_of_true hcontained fun _ => ⟨hless,?_⟩
              omega
            · rw [hcopied] at hcurrLen hmore
              rw [hnext,ih hnextState hcurrLen (.inl (by rw [hrespLen]; omega)) hlength,hrespLen]
              constructor
              · intro h _
                by_cases hnone : continuations later = 0
                · rw [hnone]
                  omega
                · have hbound := (h hnone).2
                  omega
              · intro h _
                have hbound := (h (Nat.succ_ne_zero _)).2
                omega
          · refine iff_of_false
              (not_contained_overflow hstate hhead (by omega) (by omega) hroom) fun h => ?_
            have hbound := (h (Nat.succ_ne_zero _)).2
            omega
        · exact iff_of_false
            (not_contained_wrapped hstate hhead (by omega) (by omega) hroom)
            fun h => hless (h (Nat.succ_ne_zero _)).1
      · have hcontinues : OsEvent.continues (.message msg) = false := by
          simp [OsEvent.continues,hhead]
        rw [contained_wrong hstate hhead,ih hstate hcopied hle hroom,hcontinues]
        rfl

theorem passedOver_iff {ack : Option (Option CANMessage)} {msg : CANMessage} :
    (OsEvent.message msg).passedOver ack = true ↔
      ¬msg.byte 0 &&& 0xF0 = 0x00 ∧ (msg.byte 0 = 0x10 → ack = some none) := decide_eq_true_iff

theorem replyFits_passedOver {ack : Option (Option CANMessage)}
    (hpassed : evt.passedOver ack = true) :
    ReplyFits .diag6A ack cap (evt :: later) ↔ ReplyFits .diag6A ack cap later := by
  rw [ReplyFits,ReplyFits,List.dropWhile_cons_of_pos hpassed]

/-- An event that leaves the loop as it is. -/
theorem contained_passedOver {ack : Option (Option CANMessage)}
    (hpassed : evt.passedOver ack = true)
    (hstep : CANCommunicator6A.onEvent calculator st evt = some (.waiting next,sent))
    (hinside : ∀ copy, CANCommunicator6A.copyOf st evt = some copy → copy.Inside cap)
    (hlater : Contained calculator cap next later ↔ ReplyFits .diag6A ack cap later) :
    Contained calculator cap st (evt :: later) ↔ ReplyFits .diag6A ack cap (evt :: later) := by
  rw [contained_waiting hstep,replyFits_passedOver hpassed,hlater]
  exact and_iff_right hinside

/-- A short answer ends the call. -/
theorem contained_short {msg : CANMessage} (hstate : st.state = .idle)
    (hshort : msg.byte 0 &&& 0xF0 = 0x00) (hcap : 7 ≤ cap) :
    Contained calculator cap st (.message msg :: later) ↔ (msg.byte 0).toNat ≤ 7 := by
  have hlast : ∀ next sent,
      CANCommunicator6A.onEvent calculator st (.message msg) ≠ some (.waiting next,sent) := by
    rw [onEvent_idle hstate]
    rcases @CANCommunicator6A.onIdle_short_cases calculator st msg hshort with
      ⟨hnone,-⟩ | ⟨last,hsome,-⟩
    · rw [hnone]
      exact fun _ _ h => nomatch h
    · rw [hsome]
      exact fun _ _ h => nomatch h
  rw [contained_last hlast,copyOf_short hstate hshort]
  simp only [Option.some.injEq,forall_eq',Copy.Inside]
  omega

theorem first_inside {msg : CANMessage} (hstate : st.state = .idle)
    (hshort : ¬msg.byte 0 &&& 0xF0 = 0x00) (hfirst : msg.byte 0 = 0x10) (hcap : 6 ≤ cap) :
    ∀ copy, CANCommunicator6A.copyOf st (.message msg) = some copy → copy.Inside cap := by
  intro copy hcopy
  cases (copyOf_first hstate hshort hfirst).symm.trans hcopy
  dsimp only [Copy.Inside]
  omega

/-- A first frame: the search for the acknowledge command faults, finds none, or the reply goes
on behind the six bytes of the frame. -/
theorem contained_first {msg : CANMessage} (hstate : st.state = .idle)
    (hshort : ¬msg.byte 0 &&& 0xF0 = 0x00) (hfirst : msg.byte 0 = 0x10)
    (hroom : st.response.length = cap) (hcap : 6 ≤ cap)
    (hlater : ∀ next : Execution, next.state = .idle → next.response.length = cap →
      (Contained calculator cap next later ↔
        ReplyFits .diag6A (CANCommunicator6A.ackMessage calculator) cap later)) :
    Contained calculator cap st (.message msg :: later) ↔
      ReplyFits .diag6A (CANCommunicator6A.ackMessage calculator) cap (.message msg :: later) := by
  have hinside := first_inside hstate hshort hfirst hcap
  have hstop (ack : Option (Option CANMessage)) (hack : ack ≠ some none) :
      ¬(OsEvent.message msg).passedOver ack = true :=
    fun h => hack ((passedOver_iff.mp h).2 hfirst)
  rcases @CANCommunicator6A.onIdle_first_cases calculator st msg hshort hfirst with
    ⟨hnone,hout⟩ | ⟨next,hbegun,-,⟨hack,hnextState,hstep⟩ | ⟨ack,hack,hnextState,hstep⟩⟩
  · have hack : CANCommunicator6A.ackMessage calculator = none := by
      by_contra hsome
      exact hout ⟨by omega,hsome⟩
    rw [← onEvent_idle hstate] at hnone
    rw [contained_last (by rw [hnone]; exact fun _ _ h => nomatch h),hack,ReplyFits,
      List.dropWhile_cons_of_neg (hstop none (by simp))]
    refine iff_of_true hinside ?_
    dsimp only
    rw [if_neg hshort]
    exact fun h => absurd rfl h
  · rw [← onEvent_idle hstate] at hstep
    exact contained_passedOver (passedOver_iff.mpr ⟨hshort,fun _ => hack⟩) hstep hinside
      (hlater next (hnextState.trans hstate) (hbegun.room.trans hroom))
  · rw [← onEvent_idle hstate] at hstep
    rw [contained_waiting hstep,contained_following hnextState
      (by rw [hbegun.currLen]; rfl) (.inr rfl) (hbegun.room.trans hroom),hbegun.respLen,
      hack,ReplyFits,List.dropWhile_cons_of_neg (hstop (some (some ack)) (by simp))]
    dsimp only
    rw [if_neg hshort]
    constructor
    · intro h _
      exact h.2
    · intro h
      exact ⟨hinside,h (Option.some_ne_none _)⟩

/-- From the idle state on the copies stay inside exactly when the reply fits. -/
theorem contained_idle (hstate : st.state = .idle) (hroom : st.response.length = cap)
    (hcap : 7 ≤ cap) : Contained calculator cap st evts ↔
      ReplyFits .diag6A (CANCommunicator6A.ackMessage calculator) cap evts := by
  induction evts generalizing st with
  | nil => exact iff_of_true (fun _ hmem => absurd hmem List.not_mem_nil) trivial
  | cons evt later ih =>
    cases evt with
    | timeout => exact iff_of_true contained_timeout trivial
    | other =>
      exact contained_passedOver rfl rfl (fun copy hcopy => by cases hcopy) (ih hstate hroom)
    | message msg =>
      by_cases hshort : msg.byte 0 &&& 0xF0 = 0x00
      · rw [contained_short hstate hshort hcap,ReplyFits,
          List.dropWhile_cons_of_neg fun h => (passedOver_iff.mp h).1 hshort]
        dsimp only
        rw [if_pos hshort]
      · by_cases hfirst : msg.byte 0 = 0x10
        · exact contained_first hstate hshort hfirst hroom (by omega)
            fun next hnext hlength => ih hnext hlength
        · have hstep : CANCommunicator6A.onEvent calculator st (.message msg) =
              some (.waiting st,[]) := by
            rw [onEvent_idle hstate,CANCommunicator6A.onIdle,if_neg hshort,if_neg hfirst]
          refine contained_passedOver (passedOver_iff.mpr ⟨hshort,fun h => absurd h hfirst⟩) hstep
            ?_ (ih hstate hroom)
          intro copy hcopy
          rw [copyOf_unhandled hstate hshort hfirst] at hcopy
          cases hcopy

end Loop

/-- The 68 communicator goes on behind the event when its copy is inside. -/
theorem wait68_goesOn_iff (responseSz : Nat) (evt : OsEvent) (evts : List OsEvent) :
    (wait68 responseSz (evt :: evts)).goesOn = true ↔
      ∀ copy ∈ CANCommunicator68.copies (evt :: evts), copy.Inside responseSz := by
  cases evt with
  | message msg => simp [wait68,Session.quiet,CANCommunicator68.copies,Copy.Inside,msg.data_length]
  | timeout => simp [wait68,Session.quiet,CANCommunicator68.copies]
  | other => simp [wait68,Session.quiet,CANCommunicator68.copies]

/-- The copies of a call stay inside the frames and the response array of the caller exactly when
the reply fits. -/
theorem replyCopies_inside_iff (kind : DiagKind) (com : CANCommunicatorMaster)
    (caller : DiagCaller) (evts : List OsEvent) :
    (∀ copy ∈ replyCopies kind com caller evts, copy.Inside caller.responseSz) ↔
      ReplyFits kind (CANCommunicator6A.ackMessage com.calculator) caller.responseSz evts := by
  have hcap : 7 ≤ caller.responseSz := by cases caller <;> decide
  cases kind with
  | diag6A => exact contained_idle rfl List.length_replicate hcap
  | diag68 =>
    cases evts with
    | nil => exact iff_of_true (fun _ hmem => absurd hmem List.not_mem_nil) trivial
    | cons evt later =>
      cases evt with
      | message msg =>
        simp only [replyCopies,CANCommunicator68.copies,List.mem_singleton,forall_eq,Copy.Inside,
          ReplyFits]
        omega
      | timeout => exact iff_of_true (fun _ hmem => absurd hmem List.not_mem_nil) trivial
      | other => exact iff_of_true (fun _ hmem => absurd hmem List.not_mem_nil) trivial

section

/-- A short reply that announces fifteen bytes. -/
def fifteenAnnounced : CANMessage where
  id := 0x772
  data := [0x0F,1,2,3,4,5,6,7]
  len := 8
  format := .CANStandard
  type := .CANData
  data_length := rfl

def clearedMaster : CANCommunicatorMaster where
  bus := 1
  calculator := ⟨false,false,⟨0,0,0,0,0,0,0,0,0⟩,[]⟩
  bus_ne_zero := by decide

/-- The copy goes on eight bytes behind the frame. -/
theorem fifteenAnnounced_not_inside :
    replyCopies .diag6A clearedMaster .diagStart [.message fifteenAnnounced] = [⟨1,0,15⟩] ∧
      ¬∀ copy ∈ replyCopies .diag6A clearedMaster .diagStart [.message fifteenAnnounced],
        copy.Inside DiagCaller.diagStart.responseSz := by
  have hcopies : replyCopies .diag6A clearedMaster .diagStart [.message fifteenAnnounced] =
      [⟨1,0,15⟩] := by decide +kernel
  refine ⟨hcopies,fun hall => ?_⟩
  have hinside := hall ⟨1,0,15⟩ (by rw [hcopies]; exact List.mem_singleton_self _)
  exact absurd hinside (by decide)

end

end Pyrn.Can
