import Pyrn.Can.SegmentedResponse

/-!
# When the reported length is received

`ExecuteCommand` stores the declared length of a reply on its first frame. What it reports has
been received exactly when no wait ends while declared bytes are missing and no frame declares
more than it carries.
-/

namespace Pyrn.Can

/-- The reported bytes are those that have arrived in the frames of the reply. -/
def Reported (st : Execution) : Prop :=
  st.respLen.toNat ≤ st.accepted.length ∧ st.response.take st.respLen.toNat = st.accepted

/-- A call that returns reports what has been received, and none ends in a memory fault. -/
def Reports : Option Progress → Prop
  | none => False
  | some (.waiting _) => True
  | some (.returned st) => Reported st

/-- Have all of `count` payload bytes arrived in the message? -/
def CANMessage.Carries (msg : CANMessage) (first count : Nat) : Prop :=
  count = 0 ∨ first + count ≤ min msg.len.toNat 8

/-- Behind a first frame with declared length `L`, of which `copied` bytes have been gone
through, all of them arrived if `whole` holds: the missing bytes come before a wait ends. -/
def RestCovered (cap L : Nat) : Nat → Prop → List OsEvent → Prop
  | _, _, [] => True
  | copied, whole, .timeout :: _ => whole ∧ L ≤ copied
  | copied, whole, .other :: later => RestCovered cap L copied whole later
  | copied, whole, .message msg :: later =>
      if msg.byte 0 &&& 0xF0 = 0x20 then
        copied ≤ L ∧ copied + min 7 (L - copied) ≤ cap ∧
          if L ≤ copied + 7 then whole ∧ msg.Carries 1 (L - copied)
          else RestCovered cap L (copied + 7) (whole ∧ msg.Carries 1 7) later
      else RestCovered cap L copied whole later

/-- Before a reply is complete, where `whole` tells whether an earlier first frame that could
not be acknowledged carried all that it declared. `cap` is the size of the response buffer. -/
def IdleCovered (ack : Option (Option CANMessage)) (cap : Nat) : Prop → List OsEvent → Prop
  | _, [] => True
  | whole, .timeout :: _ => whole
  | whole, .other :: later => IdleCovered ack cap whole later
  | whole, .message msg :: later =>
      if msg.byte 0 &&& 0xF0 = 0x00 then
        msg.Carries 1 (msg.byte 0).toNat ∧ (msg.byte 0).toNat ≤ cap
      else if msg.byte 0 = 0x10 then
        6 ≤ cap ∧ match ack with
          | none => False
          | some none => IdleCovered ack cap (msg.Carries 2 (msg.byte 1).toNat) later
          | some (some _) => RestCovered cap (msg.byte 1).toNat 6
              (msg.Carries 2 (min 6 (msg.byte 1).toNat)) later
      else IdleCovered ack cap whole later

section Arrivals

variable (msg : CANMessage) (first count : Nat)

theorem arrived_length :
    (msg.arrived first count).length = min count (min msg.len.toNat 8 - first) := by
  rw [CANMessage.arrived,List.length_take,List.length_drop,List.length_take,msg.data_length]

theorem carries_iff : msg.Carries first count ↔ (msg.arrived first count).length = count := by
  rw [CANMessage.Carries,arrived_length]
  omega

/-- The bytes that have arrived are a front part of those that a copy takes. -/
theorem take_of_carries (h : msg.Carries first count) :
    (msg.data.drop first).take count = msg.arrived first count := by
  rcases h with rfl | hlen
  · rw [CANMessage.arrived,List.take_zero,List.take_zero]
  · rw [CANMessage.arrived,List.drop_take,List.take_take]
    congr 1
    omega

end Arrivals

section Loop

variable {calculator : CANDiagCalculator} {st next : Execution} {evt : OsEvent}
  {evts : List OsEvent} {sent : List CANMessage}

theorem waitLoop_waiting
    (h : CANCommunicator6A.onEvent calculator st evt = some (.waiting next,sent)) :
    CANCommunicator6A.waitLoop calculator st (evt :: evts) =
      CANCommunicator6A.waitLoop calculator next evts := by
  rw [CANCommunicator6A.waitLoop,h]
  rfl

theorem waitLoop_returned
    (h : CANCommunicator6A.onEvent calculator st evt = some (.returned next,sent)) :
    CANCommunicator6A.waitLoop calculator st (evt :: evts) = some (.returned next) := by
  rw [CANCommunicator6A.waitLoop,h]
  rfl

theorem waitLoop_fault (h : CANCommunicator6A.onEvent calculator st evt = none) :
    CANCommunicator6A.waitLoop calculator st (evt :: evts) = none := by
  rw [CANCommunicator6A.waitLoop,h]
  rfl

end Loop

section Extended

variable {calculator : CANDiagCalculator} {cap L copied : Nat} {whole : Prop} {st : Execution}

/-- The extended state behind a first frame with declared length `L`. -/
structure Following (cap L copied : Nat) (whole : Prop) (st : Execution) : Prop where
  state : st.state = .extCmd
  respLen : st.respLen.toNat = L
  currLen : st.currLen.toNat = copied
  copied_le : copied ≤ L ∨ copied = 6
  room : st.response.length = cap
  accepted_le : st.accepted.length ≤ min L copied
  whole_iff : whole ↔ st.accepted.length = min L copied
  taken : whole → st.response.take (min L copied) = st.accepted

theorem reported_following (h : Following cap L copied whole st) :
    Reported { st with state := .idle } ↔ whole ∧ L ≤ copied := by
  have hle := h.accepted_le
  have hlen : st.respLen.toNat = L := h.respLen
  constructor
  · rintro ⟨hreport,-⟩
    have hcover : L ≤ st.accepted.length := by
      rw [← hlen]
      exact hreport
    refine ⟨h.whole_iff.mpr ?_,?_⟩
    · omega
    · omega
  · rintro ⟨hwhole,hcover⟩
    have hmin : min L copied = L := Nat.min_eq_left hcover
    have hall := h.whole_iff.mp hwhole
    have htake := h.taken hwhole
    rw [hmin] at hall htake
    refine ⟨?_,?_⟩
    · rw [hlen]
      exact hall.ge
    · rw [hlen]
      exact htake

/-- A continuation frame keeps the account. -/
theorem following_next {msg : CANMessage} {size : Nat} {next : Execution}
    (h : Following cap L copied whole st) (hle : copied ≤ L) (hsize : size = min 7 (L - copied))
    (hfits : copied + size ≤ cap) (hstate : next.state = st.state)
    (hrespLen : next.respLen = st.respLen) (hcurrLen : next.currLen.toNat = st.currLen.toNat + size)
    (hresponse : next.response =
      Buffer.splice st.response st.currLen.toNat ((msg.data.drop 1).take size))
    (haccepted : next.accepted = st.accepted ++ msg.arrived 1 size) :
    Following cap L (copied + size) (whole ∧ msg.Carries 1 size) next := by
  have hacc := h.accepted_le
  have hbefore : min L copied = copied := Nat.min_eq_right hle
  have hafter : min L (copied + size) = copied + size := by omega
  have harrived := arrived_length msg 1 size
  have hcopied : ((msg.data.drop 1).take size).length = size := by
    rw [List.length_take,List.length_drop,msg.data_length]
    omega
  have hlength : next.accepted.length = st.accepted.length + (msg.arrived 1 size).length := by
    rw [haccepted,List.length_append]
  rw [h.currLen] at hresponse hcurrLen
  refine ⟨hstate.trans h.state,?_,hcurrLen,.inl (by omega),?_,by omega,?_,?_⟩
  · rw [hrespLen,h.respLen]
  · rw [hresponse,Buffer.splice_length (by rw [hcopied,h.room]; exact hfits),h.room]
  · rw [h.whole_iff,carries_iff,hlength]
    omega
  · rintro ⟨hwhole,hcarries⟩
    have htake := h.taken hwhole
    rw [hbefore] at htake
    rw [hafter,hresponse,Buffer.take_splice_add hcopied (by rw [h.room]; exact hfits),htake,
      take_of_carries msg 1 size hcarries,haccepted]

/-- A declared length below the six bytes of the first frame makes the difference wrap. -/
theorem onExtCmd_wrapped {msg : CANMessage} (hhead : msg.byte 0 &&& 0xF0 = 0x20)
    (hless : st.respLen.toNat < st.currLen.toNat) (hsix : st.currLen.toNat = 6) :
    CANCommunicator6A.onExtCmd st msg = none := by
  have hcount : 8 ≤ (st.respLen - st.currLen).toNat := by
    rw [UInt8.toNat_sub]
    omega
  rw [CANCommunicator6A.onExtCmd_eq_none_iff hhead (by rw [if_pos (by omega)])]
  omega

/-- A copy past the end of the response buffer. -/
theorem onExtCmd_overflow {msg : CANMessage} (hhead : msg.byte 0 &&& 0xF0 = 0x20)
    (hle : st.currLen.toNat ≤ st.respLen.toNat)
    (hfull : st.response.length <
      st.currLen.toNat + min 7 (st.respLen.toNat - st.currLen.toNat)) :
    CANCommunicator6A.onExtCmd st msg = none := by
  rw [CANCommunicator6A.onExtCmd_eq_none_iff hhead (CANCommunicator6A.payloadSz_toNat hle)]
  omega

/-- A continuation frame that fits is copied, and the last one ends the wait. -/
theorem Following.continuation (h : Following cap L copied whole st) {msg : CANMessage}
    (hhead : msg.byte 0 &&& 0xF0 = 0x20) (hle : copied ≤ L)
    (hfits : copied + min 7 (L - copied) ≤ cap) :
    ∃ next, Following cap L (copied + min 7 (L - copied))
        (whole ∧ msg.Carries 1 (min 7 (L - copied))) next ∧
      CANCommunicator6A.onExtCmd st msg = some (if L ≤ copied + 7 then
        .returned { next with state := .idle } else .waiting next,[]) := by
  obtain ⟨next,hstate,hrespLen,hcurrLen,hresponse,haccepted,hstep⟩ :=
    @CANCommunicator6A.onExtCmd_continuation st msg (min 7 (L - copied)) hhead
      (by rw [h.currLen,h.respLen]; exact hle) (by rw [h.currLen,h.respLen])
      (by rw [h.currLen,h.room]; exact hfits)
  rw [h.respLen,h.currLen] at hstep
  exact ⟨next,following_next h hle rfl hfits hstate hrespLen hcurrLen hresponse haccepted,hstep⟩

/-- A continuation frame that does not fit, or for which there is nothing left to copy. -/
theorem Following.fault (h : Following cap L copied whole st) {msg : CANMessage}
    (hhead : msg.byte 0 &&& 0xF0 = 0x20)
    (hbad : ¬(copied ≤ L ∧ copied + min 7 (L - copied) ≤ cap)) :
    CANCommunicator6A.onExtCmd st msg = none := by
  by_cases hle : copied ≤ L
  · apply onExtCmd_overflow hhead
    · rw [h.currLen,h.respLen]
      exact hle
    · rw [h.currLen,h.respLen,h.room]
      exact not_le.mp fun hfits => hbad ⟨hle,hfits⟩
  · apply onExtCmd_wrapped hhead
    · rw [h.currLen,h.respLen]
      exact not_le.mp hle
    · rw [h.currLen]
      exact h.copied_le.resolve_left hle

/-- In the extended state the loop reports what has been received exactly when the rest of the
reply is covered. -/
theorem waitLoop_following (h : Following cap L copied whole st) (evts : List OsEvent) :
    Reports (CANCommunicator6A.waitLoop calculator st evts) ↔
      RestCovered cap L copied whole evts := by
  induction evts generalizing copied whole st with
  | nil => exact iff_of_true trivial trivial
  | cons evt later ih =>
    cases evt with
    | timeout =>
      have hstep : CANCommunicator6A.onEvent calculator st .timeout =
          some (.returned { st with state := .idle },[]) := rfl
      rw [waitLoop_returned hstep]
      exact reported_following h
    | other =>
      have hstep : CANCommunicator6A.onEvent calculator st .other = some (.waiting st,[]) := rfl
      rw [waitLoop_waiting hstep]
      exact ih h
    | message msg =>
      have hevent : CANCommunicator6A.onEvent calculator st (.message msg) =
          CANCommunicator6A.onExtCmd st msg := by
        rw [CANCommunicator6A.onEvent,h.state]
      rw [RestCovered]
      by_cases hhead : msg.byte 0 &&& 0xF0 = 0x20
      · rw [if_pos hhead]
        by_cases hgood : copied ≤ L ∧ copied + min 7 (L - copied) ≤ cap
        · obtain ⟨hle,hfits⟩ := hgood
          obtain ⟨next,hnext,hstep⟩ := h.continuation hhead hle hfits
          by_cases hlast : L ≤ copied + 7
          · have hsize : min 7 (L - copied) = L - copied := by omega
            rw [if_pos hlast] at hstep ⊢
            rw [waitLoop_returned (hevent.trans hstep)]
            rw [hsize] at hnext hfits ⊢
            have hreported := reported_following hnext
            constructor
            · intro hreports
              exact ⟨hle,hfits,(hreported.mp hreports).1⟩
            · intro hcovered
              exact hreported.mpr ⟨hcovered.2.2,by omega⟩
          · have hsize : min 7 (L - copied) = 7 := by omega
            rw [if_neg hlast] at hstep ⊢
            rw [waitLoop_waiting (hevent.trans hstep)]
            rw [hsize] at hnext hfits ⊢
            rw [ih hnext]
            exact ⟨fun hcovered => ⟨hle,hfits,hcovered⟩,fun hcovered => hcovered.2.2⟩
        · rw [waitLoop_fault (hevent.trans (h.fault hhead hgood))]
          exact iff_of_false id fun hcovered => hgood ⟨hcovered.1,hcovered.2.1⟩
      · have hstep : CANCommunicator6A.onEvent calculator st (.message msg) =
            some (.waiting st,[]) := by
          rw [hevent,CANCommunicator6A.onExtCmd,if_neg hhead]
        rw [if_neg hhead,waitLoop_waiting hstep]
        exact ih h

end Extended

section Idle

open CANCommunicator6A (Begun)

variable {calculator : CANDiagCalculator} {cap : Nat} {whole : Prop} {st : Execution}
  {msg : CANMessage}

theorem reported_short {last : Execution} (hrespLen : last.respLen = msg.byte 0)
    (haccepted : last.accepted = msg.arrived 1 (msg.byte 0).toNat)
    (htake : last.response.take (msg.byte 0).toNat = (msg.data.drop 1).take (msg.byte 0).toNat)
    (hcap : (msg.byte 0).toNat ≤ cap) :
    Reported last ↔ msg.Carries 1 (msg.byte 0).toNat ∧ (msg.byte 0).toNat ≤ cap := by
  have harrived := arrived_length msg 1 (msg.byte 0).toNat
  rw [Reported,hrespLen,haccepted,htake]
  constructor
  · rintro ⟨hle,-⟩
    refine ⟨(carries_iff msg 1 _).mpr ?_,hcap⟩
    omega
  · rintro ⟨hcarries,-⟩
    exact ⟨((carries_iff msg 1 _).mp hcarries).ge,take_of_carries msg 1 _ hcarries⟩

theorem take_begun {next : Execution} (h : Begun msg cap next) {n : Nat} (hn : n ≤ 6) :
    next.response.take n = (msg.data.drop 2).take n := by
  have htwice := congrArg (List.take n) h.response
  rw [List.take_take,List.take_take,Nat.min_eq_left hn] at htwice
  exact htwice

/-- What has been reported when a first frame is given up. -/
theorem reported_begun {next : Execution} (h : Begun msg cap next) :
    Reported next ↔ msg.Carries 2 (msg.byte 1).toNat := by
  have harrived := arrived_length msg 2 (msg.byte 1).toNat
  have hlen : next.respLen.toNat = (msg.byte 1).toNat := by rw [h.respLen]
  rw [carries_iff]
  constructor
  · rintro ⟨hle,-⟩
    rw [hlen,h.accepted] at hle
    omega
  · intro hall
    refine ⟨?_,?_⟩
    · rw [hlen,h.accepted]
      exact hall.ge
    · rw [hlen,h.accepted,← take_of_carries msg 2 _ ((carries_iff msg 2 _).mpr hall)]
      exact take_begun h (by omega)

theorem following_begun {next : Execution} (h : Begun msg cap next)
    (hstate : next.state = .extCmd) :
    Following cap (msg.byte 1).toNat 6 (msg.Carries 2 (min 6 (msg.byte 1).toNat)) next := by
  have harrived := arrived_length msg 2 (msg.byte 1).toNat
  have hmin := arrived_length msg 2 (min 6 (msg.byte 1).toNat)
  have hsame : msg.arrived 2 (min 6 (msg.byte 1).toNat) = msg.arrived 2 (msg.byte 1).toNat := by
    rw [CANMessage.arrived,CANMessage.arrived,List.take_eq_take_iff,List.length_drop,
      List.length_take,msg.data_length]
    omega
  refine ⟨hstate,?_,?_,.inr rfl,h.room,?_,?_,?_⟩
  · rw [h.respLen]
  · rw [h.currLen]
    rfl
  · rw [h.accepted]
    omega
  · rw [carries_iff,h.accepted]
    omega
  · intro hcarries
    rw [h.accepted,← hsame,← take_of_carries msg 2 _ hcarries,Nat.min_comm]
    exact take_begun h (Nat.min_le_left _ _)

/-- In the idle state the loop reports what has been received exactly when the events are
covered. -/
theorem waitLoop_idle (hidle : st.state = .idle) (hroom : st.response.length = cap)
    (hwhole : whole ↔ Reported st) (evts : List OsEvent) :
    Reports (CANCommunicator6A.waitLoop calculator st evts) ↔
      IdleCovered (CANCommunicator6A.ackMessage calculator) cap whole evts := by
  induction evts generalizing whole st with
  | nil => exact iff_of_true trivial trivial
  | cons evt later ih =>
    cases evt with
    | timeout =>
      have hstep : CANCommunicator6A.onEvent calculator st .timeout =
          some (.returned { st with state := .idle },[]) := rfl
      rw [waitLoop_returned hstep]
      exact hwhole.symm
    | other =>
      have hstep : CANCommunicator6A.onEvent calculator st .other = some (.waiting st,[]) := rfl
      rw [waitLoop_waiting hstep]
      exact ih hidle hroom hwhole
    | message msg =>
      have hevent : CANCommunicator6A.onEvent calculator st (.message msg) =
          CANCommunicator6A.onIdle calculator st msg := by
        rw [CANCommunicator6A.onEvent,hidle]
      unfold IdleCovered
      by_cases hshort : msg.byte 0 &&& 0xF0 = 0x00
      · rw [if_pos hshort]
        rcases @CANCommunicator6A.onIdle_short_cases calculator st msg hshort with
          ⟨hfault,hbad⟩ | ⟨last,hstep,⟨hdata,hcap⟩,hrespLen,haccepted,htake⟩
        · rw [waitLoop_fault (hevent.trans hfault)]
          refine iff_of_false id fun hcovered => hbad ⟨?_,?_⟩
          · rcases hcovered.1 with hzero | hcarried
            · omega
            · omega
          · rw [hroom]
            exact hcovered.2
        · rw [waitLoop_returned (hevent.trans hstep)]
          exact reported_short hrespLen haccepted htake (hroom ▸ hcap)
      · rw [if_neg hshort]
        by_cases hfirst : msg.byte 0 = 0x10
        · rw [if_pos hfirst]
          rcases @CANCommunicator6A.onIdle_first_cases calculator st msg hshort hfirst with
            ⟨hfault,hbad⟩ | ⟨next,hbegun,hsix,⟨hack,hstate,hstep⟩ | ⟨ack,hack,hstate,hstep⟩⟩
          · rw [waitLoop_fault (hevent.trans hfault)]
            refine iff_of_false id ?_
            rintro ⟨hcap,hcovered⟩
            refine hbad ⟨by rw [hroom]; exact hcap,fun hnone => ?_⟩
            rw [hnone] at hcovered
            exact hcovered
          · rw [waitLoop_waiting (hevent.trans hstep),hack]
            rw [hroom] at hbegun hsix
            rw [ih (hstate.trans hidle) hbegun.room (reported_begun hbegun).symm,hack]
            exact ⟨fun hcovered => ⟨hsix,hcovered⟩,fun hcovered => hcovered.2⟩
          · rw [waitLoop_waiting (hevent.trans hstep),hack]
            rw [hroom] at hbegun hsix
            rw [waitLoop_following (following_begun hbegun hstate)]
            exact ⟨fun hcovered => ⟨hsix,hcovered⟩,fun hcovered => hcovered.2⟩
        · have hstep : CANCommunicator6A.onEvent calculator st (.message msg) =
              some (.waiting st,[]) := by
            rw [hevent,CANCommunicator6A.onIdle,if_neg hshort,if_neg hfirst]
          rw [if_neg hfirst,waitLoop_waiting hstep]
          exact ih hidle hroom hwhole

end Idle

/-- A call that waits: it has a bus, a calculator, a place for the response and a time to wait. -/
def Waits (bus : UInt8) (calculator : Option CANDiagCalculator) (response : Option (List UInt8))
    (msTmo : UInt32) : Prop :=
  bus ≠ 0 ∧ calculator ≠ none ∧ response ≠ none ∧ msTmo ≠ 0

/-- Whatever the call sees, it reports what has been received exactly when it does not wait or
the events are covered. -/
theorem executeCommand_exact (bus : UInt8) (calculator : Option CANDiagCalculator)
    (response : Option (List UInt8)) (msTmo : UInt32) (evts : List OsEvent) :
    Reports (CANCommunicator6A.executeCommand bus calculator response msTmo evts) ↔
      (Waits bus calculator response msTmo → IdleCovered
        (calculator.bind CANCommunicator6A.ackMessage) (response.getD []).length True evts) := by
  have hstart (memory : List UInt8) : Reported (CANCommunicator6A.start memory) :=
    ⟨Nat.zero_le _,rfl⟩
  cases calculator with
  | none => exact iff_of_true (hstart _) fun hwaits => absurd rfl hwaits.2.1
  | some calculator =>
    cases response with
    | none => exact iff_of_true (hstart _) fun hwaits => absurd rfl hwaits.2.2.1
    | some response =>
      rw [CANCommunicator6A.executeCommand]
      by_cases hcall : bus ≠ 0 ∧ msTmo ≠ 0
      · have hwaits : Waits bus (some calculator) (some response) msTmo :=
          ⟨hcall.1,Option.some_ne_none _,Option.some_ne_none _,hcall.2⟩
        rw [if_pos hcall,waitLoop_idle rfl rfl (iff_of_true trivial (hstart response))]
        exact ⟨fun hcovered _ => hcovered,fun hcovered => hcovered hwaits⟩
      · rw [if_neg hcall]
        exact iff_of_true (hstart _) fun hwaits => absurd ⟨hwaits.1,hwaits.2.2.2⟩ hcall

/-- The first frame of a reply of 20 bytes. -/
def firstFrame : CANMessage :=
  ⟨0x772,[0x10,20,1,2,3,4,5,6],8,.CANStandard,.CANData,rfl⟩

/-- A timeout behind the first frame: 20 bytes are reported, and six have arrived. -/
theorem executeCommand_timeout :
    ∃ st, CANCommunicator6A.executeCommand 1 (some ackCalculator)
        (some (List.replicate 64 0)) 100 [.message firstFrame,.timeout] = some (.returned st) ∧
      st.respLen.toNat = 20 ∧ st.accepted.length = 6 ∧ ¬Reported st := by
  refine ⟨_,rfl,rfl,rfl,?_⟩
  rintro ⟨hle,-⟩
  revert hle
  decide

end Pyrn.Can
