import Pyrn.Modem.SerialStream

/-!
# Where the reading thread waits

The reading thread sleeps when there is nothing to read and no command to take. It must not wait for
room in the buffer that it alone empties; this happens in the callback, when that runs on it.
-/

namespace Pyrn.Modem.Rx

/-- A callback that is let go on alone comes to its end. -/
inductive Finishes : Callback → Stream → Stream → Prop
  | last {callback : Callback} {s s' : Stream} (h : callback.step s = some (none,s')) :
      Finishes callback s s'
  | next {callback callback' : Callback} {s s₁ s' : Stream}
      (h : callback.step s = some (some callback',s₁)) (rest : Finishes callback' s₁ s') :
      Finishes callback s s'

/-- The steps that are left to a callback. -/
def Callback.left (s : Stream) : Callback → Nat
  | test => 3 * s.port.packet.length + 3
  | fetch => 3 * s.port.packet.length + 2
  | store _ => 3 * s.port.packet.length + 4
  | next => 2
  | signal => 1

/-- What the buffer has to hold for a callback to come to its end. -/
def Callback.need (s : Stream) (callback : Callback) : Nat :=
  s.inBuf.contents.length + callback.held.length + s.port.packet.length

variable {callback callback' : Callback} {rest : List Callback} {s s' : Stream}

theorem Callback.step_eq_none (h : callback.step s = some (none,s')) :
    callback = .signal ∧ s' = { s with tokens := s.tokens + 1 } := by
  cases callback with
  | test =>
    rw [step] at h
    split_ifs at h <;> cases h
  | store c =>
    obtain ⟨inBuf,-,heq⟩ := Option.map_eq_some_iff.mp h
    cases heq
  | signal =>
    cases h
    exact ⟨rfl,rfl⟩
  | _ => cases h

theorem Callback.step_tokens (h : callback.step s = some (some callback',s')) :
    s'.tokens = s.tokens := by
  cases callback with
  | test =>
    rw [step] at h
    split_ifs at h <;> cases h <;> rfl
  | store c =>
    obtain ⟨inBuf,-,heq⟩ := Option.map_eq_some_iff.mp h
    cases heq
    rfl
  | signal => cases h
  | _ =>
    cases h
    rfl

theorem Owned.need_step (h : Owned s.port (callback :: rest)) (hdrains : callback.drains = true)
    (hstep : callback.step s = some (some callback',s')) :
    callback'.need s' = callback.need s := by
  have htext := congrArg List.length (h.step hstep).2.2.2
  have hsignals := (h.alone hdrains).2.2
  have hheld := Owned.held_signals hsignals
  simp only [Option.toList_some,List.cons_append,List.nil_append,List.flatMap_cons,
    hheld,List.append_nil,List.length_append] at htext
  exact htext

theorem Owned.finishes (h : Owned s.port (callback :: rest))
    (hroom : callback.drains = true → callback.need s < circBufSize) :
    ∃ s', Finishes callback s s' ∧ 0 < s'.tokens := by
  induction hn : callback.left s using Nat.strong_induction_on generalizing callback s with
  | _ n ih =>
    subst hn
    have hgo : ∀ callback' s₁, callback.step s = some (some callback',s₁) →
        callback.drains = true → callback'.left s₁ < callback.left s →
        ∃ s', Finishes callback s s' ∧ 0 < s'.tokens := by
      intro callback' s₁ hstep hdrains hless
      obtain ⟨s',hfinishes,htokens⟩ := ih _ hless (h.step hstep).1
        (fun _ => by rw [h.need_step hdrains hstep]; exact hroom hdrains) rfl
      exact ⟨s',.next hstep hfinishes,htokens⟩
    cases callback with
    | test =>
      by_cases hreadable : s.port.readable ≠ 0
      · exact hgo .fetch s (if_pos hreadable) rfl (Nat.lt_succ_self _)
      · exact hgo .next s (if_neg hreadable) rfl (by simp only [Callback.left]; omega)
    | fetch =>
      obtain ⟨c,packet,hpacket⟩ := List.exists_cons_of_ne_nil (h.fetch List.mem_cons_self)
      have hgetc : s.port.getc.2.packet = packet := by
        simp only [Port.getc,(h.alone rfl).1,hpacket,Bool.false_eq_true,if_false]
      refine hgo _ _ rfl rfl ?_
      simp only [Callback.left,hgetc,hpacket,List.length_cons]
      omega
    | store c =>
      have hneed := hroom rfl
      cases hqueue : s.inBuf.queue c with
      | none =>
        have hfull := MtxCircBuffer.queue_eq_none_iff.mp hqueue
        simp only [Callback.need,Callback.held,List.length_singleton] at hneed
        omega
      | some inBuf =>
        refine hgo .test { s with inBuf } ?_ rfl (Nat.lt_succ_self _)
        rw [Callback.step,hqueue,Option.map_some]
    | next => exact hgo .signal _ rfl rfl (Nat.lt_succ_self _)
    | signal => exact ⟨_,.last rfl,Nat.succ_pos _⟩

/-- Whether the first call of `available` has counted nothing. -/
def After.empty : After → Bool
  | counted .testing len => len = 0
  | _ => false

/-- Whether the reading thread has found the buffer empty, and goes on to wait. -/
def Reader.foundNothing : Reader → Bool
  | unmask after => after.empty
  | waiting => true
  | _ => false

/-- Whether the reading thread is in `waitAvailable`, and has not found anything. -/
def Reader.undecided : Reader → Bool
  | mask .testing => true
  | count .testing => true
  | unmask after => after.empty
  | running after _ => after.empty
  | waiting => true
  | _ => false

namespace State

variable {s s' : State} {observed : List Observation} {a : Action}

theorem reaches_host {callback : Callback} {stream stream' : Stream}
    (h : Finishes callback stream stream') :
    ∀ s : State, s.host = some callback → s.stream = stream → ∃ n outputs,
      Transition.run step s (List.replicate n .host) =
        some (outputs,{ s with host := none,stream := stream' }) := by
  induction h with
  | @last callback stream stream' hstep =>
    rintro s hhost rfl
    have hfirst : s.step .host = some ([],{ s with host := none,stream := stream' }) := by
      simp only [step,hostStep,hhost,hstep,Option.map_some]
    exact ⟨1,[[]],(Transition.run_cons_eq_some_iff hfirst).mpr ⟨[],rfl,rfl⟩⟩
  | @next callback callback' stream stream₁ stream' hstep _ ih =>
    rintro s hhost rfl
    have hfirst : s.step .host = some ([],{ s with host := some callback',stream := stream₁ }) := by
      simp only [step,hostStep,hhost,hstep,Option.map_some]
    obtain ⟨n,outputs,hrun⟩ := ih { s with host := some callback',stream := stream₁ } rfl rfl
    exact ⟨n + 1,[] :: outputs,(Transition.run_cons_eq_some_iff hfirst).mpr ⟨outputs,rfl,hrun⟩⟩

theorem reaches_running {callback : Callback} {stream stream' : Stream}
    (h : Finishes callback stream stream') :
    ∀ (s : State) (after : After), s.reader = .running after callback → s.stream = stream →
      ∃ s', Transition.Reaches step s s' ∧ s'.reader.callback? = none := by
  induction h with
  | @last callback stream stream' hstep =>
    rintro s after hreader rfl
    have hfirst : s.step (.reader 0) = some (resume { s with stream := stream' } after) := by
      simp only [step,readerStep,hreader,hstep]
    exact ⟨_,.step (.refl s) hfirst,(resume_spec _ after).2.2.1⟩
  | @next callback callback' stream stream₁ stream' hstep _ ih =>
    rintro s after hreader rfl
    have hfirst : s.step (.reader 0) =
        some ([],{ s with reader := .running after callback',stream := stream₁ }) := by
      simp only [step,readerStep,hreader,hstep]
    obtain ⟨s',hreach,hnone⟩ :=
      ih { s with reader := .running after callback',stream := stream₁ } after rfl rfl
    exact ⟨s',.trans (.step (.refl s) hfirst) hreach,hnone⟩

theorem inv_of_reaches {inBuf : List Char} {hsize : inBuf.length = circBufSize}
    (h : Transition.Reaches step (start inBuf hsize) s) : Inv s := by
  obtain ⟨inputs,outputs,hrun⟩ := h
  exact Transition.run_invariant (fun _ _ _ _ hi hstep => (carries_step hi hstep).inv)
    (inv_start inBuf hsize) hrun

/-- The reading thread waits in the callback for room that nobody makes. -/
structure Stuck (s : State) : Prop where
  inv : Inv s
  running : ∃ after callback, s.reader = .running after callback ∧ callback.drains = true ∧
    circBufSize ≤ callback.need s.stream

/-- With too much to store, a callback does not come to its last steps. -/
theorem drains_of_need {callback callback' : Callback} {rest : List Callback}
    {stream stream' : Stream} (h : Owned stream.port (callback :: rest))
    (hdrains : callback.drains = true) (hneed : circBufSize ≤ callback.need stream)
    (hstep : callback.step stream = some (some callback',stream')) : callback'.drains = true := by
  have hlt := stream.inBuf.available_lt
  rw [← MtxCircBuffer.length_contents] at hlt
  cases callback with
  | next =>
    rw [Callback.need,h.emptied (.inr List.mem_cons_self)] at hneed
    exact absurd hneed (Nat.not_le.mpr hlt)
  | test =>
    rw [Callback.step] at hstep
    split_ifs at hstep <;> cases hstep <;> rfl
  | fetch =>
    cases hstep
    rfl
  | store c =>
    obtain ⟨inBuf,-,heq⟩ := Option.map_eq_some_iff.mp hstep
    cases heq
    rfl
  | signal => cases hdrains

theorem Stuck.step (hstuck : Stuck s) (h : s.step a = some (observed,s')) : Stuck s' := by
  have hinv := (carries_step hstuck.inv h).inv
  obtain ⟨after,callback,hreader,hdrains,hneed⟩ := hstuck.running
  have howned := hstuck.inv.running hreader
  obtain ⟨hlocked,-,hsignals⟩ := howned.alone hdrains
  refine ⟨hinv,?_⟩
  cases a with
  | arrive packet =>
    simp only [State.step] at h
    split_ifs at h with hc
    cases hlocked.symm.trans (howned.flight hc.1)
  | fail =>
    simp only [State.step] at h
    split_ifs at h
    cases h
    exact ⟨after,callback,hreader,hdrains,hneed⟩
  | host =>
    cases hhost : s.host with
    | none =>
      simp only [State.step,hostStep,hhost] at h
      cases h
    | some other =>
      have hsignal : other = .signal :=
        hsignals other (by rw [hhost]; exact List.mem_singleton_self _)
      subst hsignal
      simp only [State.step,hostStep,hhost] at h
      cases h
      exact ⟨after,callback,hreader,hdrains,hneed⟩
  | reader maxLength =>
    simp only [State.step,readerStep,hreader] at h
    cases hstep : callback.step s.stream with
    | none =>
      rw [hstep] at h
      cases h
    | some reached =>
      obtain ⟨callback',stream⟩ := reached
      cases callback' with
      | none =>
        rw [(Callback.step_eq_none hstep).1] at hdrains
        cases hdrains
      | some callback' =>
        simp only [hstep] at h
        cases h
        exact ⟨after,callback',rfl,drains_of_need howned hdrains hneed hstep,
          (howned.need_step hdrains hstep).symm ▸ hneed⟩
  | put =>
    simp only [State.step] at h
    split_ifs at h
    cases h
    exact ⟨after,callback,hreader,hdrains,hneed⟩
  | abortRead =>
    simp only [State.step] at h
    split_ifs at h
    cases h
    exact ⟨after,callback,hreader,hdrains,hneed⟩

/-- The reading thread comes out of the callback exactly when the buffer has room for what is left
of the packet: nothing else that happens frees it. -/
theorem leaves_iff {inBuf : List Char} {hsize : inBuf.length = circBufSize}
    (h : Transition.Reaches step (start inBuf hsize) s) {after : After} {callback : Callback}
    (hreader : s.reader = .running after callback) (hdrains : callback.drains = true) :
    (∃ s', Transition.Reaches step s s' ∧ s'.reader.callback? = none) ↔
      s.stream.inBuf.available + callback.held.length + s.stream.port.packet.length <
        circBufSize := by
  have hi := inv_of_reaches h
  rw [← MtxCircBuffer.length_contents]
  constructor
  · rintro ⟨s',⟨inputs,outputs,hrun⟩,hnone⟩
    by_contra hroom
    have hstuck : Stuck s := ⟨hi,after,callback,hreader,hdrains,Nat.not_lt.mp hroom⟩
    obtain ⟨after',callback',hreader',-⟩ :=
      (Transition.run_invariant (fun _ _ _ _ hs hstep => hs.step hstep) hstuck hrun).running
    rw [hreader'] at hnone
    cases hnone
  · intro hroom
    obtain ⟨stream,hfinishes,-⟩ := (hi.running hreader).finishes fun _ => hroom
    exact reaches_running hfinishes s after hreader rfl

/-- The buffer is full, and a packet of one character comes while callbacks are kept out. -/
theorem leaves_iff_full :
    ∃ s, Transition.Reaches step (start (List.replicate circBufSize nul) List.length_replicate) s ∧
      ¬∃ s', Transition.Reaches step s s' ∧ s'.reader.callback? = none := by
  have hrun : (Transition.run step (start (List.replicate circBufSize nul) List.length_replicate)
      ([.arrive (List.replicate 64 'x')] ++ List.replicate 195 .host ++
        [.arrive (List.replicate 63 'y')] ++ List.replicate 192 .host ++
        [.reader 0,.reader 0,.arrive ['z'],.reader 0,.reader 0])).map
      (fun reached => (reached.2.reader,reached.2.stream.inBuf.available,
        reached.2.stream.port.packet)) =
      some (.running (.counted .testing 127) .test,127,['z']) := by decide +kernel
  obtain ⟨⟨outputs,s⟩,hreached,heq⟩ := Option.map_eq_some_iff.mp hrun
  simp only [Prod.mk.injEq] at heq
  obtain ⟨hreader,havailable,hpacket⟩ := heq
  refine ⟨s,⟨_,outputs,hreached⟩,?_⟩
  rw [leaves_iff ⟨_,outputs,hreached⟩ hreader rfl,havailable,hpacket]
  decide

/-- What makes sure that the reading thread does not sleep on something. -/
structure Awake (s : State) : Prop where
  inv : Inv s
  packet : (s.callbacks.flatMap Callback.held).length + s.stream.port.packet.length ≤ maxInEndpoint
  data : s.reader.foundNothing = true → s.stream.tokens = 0 →
    (s.host = none → s.stream.inBuf.contents = []) ∧
      s.stream.inBuf.contents.length + (s.host.toList.flatMap Callback.held).length +
        s.stream.port.packet.length ≤ maxInEndpoint
  mail : s.reader.undecided = true → s.maxLength = none → s.mail = true →
    s.posting = true ∨ 0 < s.stream.tokens

theorem awake_start (inBuf : List Char) (hsize : inBuf.length = circBufSize) :
    Awake (start inBuf hsize) :=
  ⟨inv_start inBuf hsize,Nat.zero_le _,(fun h => by cases h),fun h => by cases h⟩

/-- What is on the way to the buffer gets less in a callback. -/
theorem onWay_step {callback : Callback} {callback' : Option Callback} {rest : List Callback}
    {stream stream' : Stream} (h : Owned stream.port (callback :: rest))
    (hstep : callback.step stream = some (callback',stream')) :
    ((callback'.toList ++ rest).flatMap Callback.held).length + stream'.port.packet.length ≤
      ((callback :: rest).flatMap Callback.held).length + stream.port.packet.length := by
  have htext := congrArg List.length (h.step hstep).2.2.2
  have hstored := Callback.step_available hstep
  simp only [List.length_append,MtxCircBuffer.length_contents] at htext ⊢
  omega

theorem held_length_comm (callbacks callbacks' : List Callback) :
    ((callbacks ++ callbacks').flatMap Callback.held).length =
      ((callbacks' ++ callbacks).flatMap Callback.held).length :=
  (List.perm_append_comm.flatMap_right Callback.held).length_eq

/-- A step of the reading thread outside the callback. -/
theorem Awake.of_move (hawake : Awake s) (hinv : Inv s') (hhost : s'.host = s.host)
    (hpacket : s'.stream.port.packet = s.stream.port.packet)
    (hcallback : s'.reader.callback? = s.reader.callback?)
    (hdata : s'.reader.foundNothing = true → s'.stream.tokens = 0 →
      (s'.host = none → s'.stream.inBuf.contents = []) ∧
        s'.stream.inBuf.contents.length + (s'.host.toList.flatMap Callback.held).length +
          s'.stream.port.packet.length ≤ maxInEndpoint)
    (hmail : s'.reader.undecided = true → s'.maxLength = none → s'.mail = true →
      s'.posting = true ∨ 0 < s'.stream.tokens) : Awake s' := by
  refine ⟨hinv,?_,hdata,hmail⟩
  rw [callbacks,hhost,hcallback,hpacket]
  exact hawake.packet

theorem undecided_of_foundNothing {reader : Reader} (h : reader.foundNothing = true) :
    reader.undecided = true := by
  cases reader with
  | unmask after => exact h
  | waiting => rfl
  | _ => cases h

theorem callback_of_foundNothing {reader : Reader} (h : reader.foundNothing = true) :
    reader.callback? = none := by
  cases reader with
  | running => cases h
  | _ => rfl

/-- A step outside the callback to a place where the reading thread has found something. -/
theorem Awake.of_decided (hawake : Awake s) (hinv : Inv s') (hhost : s'.host = s.host)
    (hpacket : s'.stream.port.packet = s.stream.port.packet)
    (hcallback : s'.reader.callback? = s.reader.callback?)
    (hdecided : s'.reader.undecided = false) : Awake s' :=
  hawake.of_move hinv hhost hpacket hcallback
    (fun hnothing => by cases hdecided.symm.trans (undecided_of_foundNothing hnothing))
    (fun hundecided => by cases hdecided.symm.trans hundecided)

theorem resume_undecided {after : After} (h : (s.resume after).2.reader.undecided = true) :
    after.empty = true := by
  cases after with
  | read taken => cases h
  | counted use len =>
    cases use with
    | measuring => cases h
    | testing =>
      by_cases hlen : len = 0
      · exact decide_eq_true hlen
      · simp only [resume,if_neg hlen] at h
        cases h

theorem resume_keeps (s : State) (after : After) :
    (s.resume after).2.maxLength = s.maxLength ∧ (s.resume after).2.mail = s.mail ∧
      (s.resume after).2.posting = s.posting := by
  cases after with
  | read taken => exact ⟨rfl,rfl,rfl⟩
  | counted use len => cases use <;> exact ⟨rfl,rfl,rfl⟩

/-- The reading thread goes on behind the callback, or without one. -/
theorem Awake.of_resume (s : State) (after : After) (hinv : Inv (s.resume after).2)
    (hpacket : (s.host.toList.flatMap Callback.held).length + s.stream.port.packet.length ≤
      maxInEndpoint)
    (hdata : after.empty = true → s.stream.tokens = 0 →
      (s.host = none → s.stream.inBuf.contents = []) ∧
        s.stream.inBuf.contents.length + (s.host.toList.flatMap Callback.held).length +
          s.stream.port.packet.length ≤ maxInEndpoint)
    (hmail : after.empty = true → s.maxLength = none → s.mail = true →
      s.posting = true ∨ 0 < s.stream.tokens) : Awake (s.resume after).2 := by
  obtain ⟨hstream,hhost,hcallback,-⟩ := resume_spec s after
  obtain ⟨hmax,hsame,hposting⟩ := resume_keeps s after
  refine ⟨hinv,by rw [callbacks_of_idle hcallback,hhost,hstream]; exact hpacket,?_,?_⟩
  · rw [hstream,hhost]
    exact fun hnothing => hdata (resume_undecided (undecided_of_foundNothing hnothing))
  · rw [hstream,hmax,hsame,hposting]
    exact fun hundecided => hmail (resume_undecided hundecided)

theorem Awake.step_reader (hawake : Awake s) {maxLength : Nat}
    (h : s.readerStep maxLength = some (observed,s')) : Awake s' := by
  have hinv := (hawake.inv.carries_reader h).inv
  cases hreader : s.reader with
  | sendCommand =>
    simp only [readerStep,hreader] at h
    cases h
    exact hawake.of_move hinv rfl rfl (by rw [hreader]; rfl) (fun hnothing => by cases hnothing)
      (fun _ _ hmail => by cases hmail)
  | mask use =>
    simp only [readerStep,hreader] at h
    cases h
    refine hawake.of_move hinv rfl rfl (by rw [hreader]; rfl) (fun hnothing => by cases hnothing) ?_
    intro hundecided
    refine hawake.mail ?_
    rw [hreader]
    cases use <;> exact hundecided
  | count use =>
    simp only [readerStep,hreader] at h
    cases h
    refine hawake.of_move hinv rfl rfl (by rw [hreader]; rfl) ?_ ?_
    · intro hnothing _
      have hpacket := hawake.packet
      rw [callbacks_of_idle (by rw [hreader]; rfl)] at hpacket
      cases use with
      | measuring => cases hnothing
      | testing =>
        have hempty : s.stream.inBuf.contents = [] := by
          rw [← List.length_eq_zero_iff,MtxCircBuffer.length_contents]
          exact of_decide_eq_true hnothing
        refine ⟨fun _ => hempty,?_⟩
        rw [hempty,List.length_nil,Nat.zero_add]
        exact hpacket
    · intro hundecided
      refine hawake.mail ?_
      rw [hreader]
      cases use with
      | measuring => cases hundecided
      | testing => rfl
  | unmask after =>
    have hpacket := hawake.packet
    rw [callbacks_of_idle (by rw [hreader]; rfl)] at hpacket
    have hdata := hawake.data
    have hmail := hawake.mail
    rw [hreader] at hdata hmail
    simp only [readerStep,hreader] at h
    cases hpending : s.stream.port.pending with
    | true =>
      have hport : s.stream.port.setupIrq true =
          (true,{ s.stream.port with enabled := true,pending := false }) := by
        simp [Port.setupIrq,hpending]
      rw [hport] at h
      cases h
      refine ⟨hinv,?_,(fun hnothing => by cases hnothing),hmail⟩
      rw [callbacks_of_running rfl,List.flatMap_append,List.length_append]
      exact hpacket
    | false =>
      have hport : s.stream.port.setupIrq true =
          (false,{ s.stream.port with enabled := true }) := by
        simp [Port.setupIrq,hpending]
      rw [hport] at h
      have hresumed := Option.some.inj h
      have hresume := Awake.of_resume
        { s with
          reader := .unmask after
          stream.port := { s.stream.port with enabled := true } } after
        (by rw [hresumed]; exact hinv) hpacket hdata hmail
      rw [hresumed] at hresume
      exact hresume
  | running after callback =>
    have hmail := hawake.mail
    rw [hreader] at hmail
    have howned := hawake.inv.running hreader
    have hpacket := hawake.packet
    rw [callbacks_of_running hreader,held_length_comm] at hpacket
    simp only [readerStep,hreader] at h
    cases hstep : callback.step s.stream with
    | none =>
      rw [hstep] at h
      cases h
    | some reached =>
      obtain ⟨callback',stream⟩ := reached
      have hless := Nat.le_trans (onWay_step howned hstep) hpacket
      cases callback' with
      | some callback' =>
        simp only [hstep] at h
        cases h
        refine ⟨hinv,?_,(fun hnothing => by cases hnothing),?_⟩
        · rw [callbacks_of_running rfl,held_length_comm]
          exact hless
        · simp only [Callback.step_tokens hstep]
          exact hmail
      | none =>
        obtain ⟨-,rfl⟩ := Callback.step_eq_none hstep
        simp only [hstep] at h
        have hresumed := Option.some.inj h
        have hresume := Awake.of_resume
          { s with
            reader := .running after callback
            stream := { s.stream with tokens := s.stream.tokens + 1 } } after
          (by rw [hresumed]; exact hinv) hless (fun _ hzero => by cases hzero)
          (fun _ _ _ => .inr (Nat.succ_pos _))
        rw [hresumed] at hresume
        exact hresume
  | waiting =>
    simp only [readerStep,hreader] at h
    split_ifs at h <;> cases h <;>
      exact hawake.of_decided hinv rfl rfl (by rw [hreader]; rfl) rfl
  | woken =>
    simp only [readerStep,hreader] at h
    split_ifs at h <;> cases h <;>
      exact hawake.of_decided hinv rfl rfl (by rw [hreader]; rfl) rfl
  | drain =>
    simp only [readerStep,hreader] at h
    split_ifs at h
    · cases hmax : s.maxLength <;> simp only [hmax] at h <;> cases h
      · exact hawake.of_move hinv rfl rfl (by rw [hreader]; rfl)
          (fun hnothing => by cases hnothing) (fun _ hnone => by cases hnone)
      · exact hawake.of_decided hinv rfl rfl (by rw [hreader]; rfl) rfl
    · cases h
      exact hawake.of_decided hinv rfl rfl (by rw [hreader]) rfl
  | maskRead readLen =>
    simp only [readerStep,hreader] at h
    cases h
    exact hawake.of_decided hinv rfl rfl (by rw [hreader]; rfl) rfl
  | dequeue readLen taken =>
    cases readLen with
    | zero =>
      simp only [readerStep,hreader] at h
      cases h
      exact hawake.of_decided hinv rfl rfl (by rw [hreader]; rfl) rfl
    | succ readLen =>
      simp only [readerStep,hreader] at h
      split at h <;> cases h <;> exact hawake.of_decided hinv rfl rfl (by rw [hreader]; rfl) rfl

theorem Awake.step_host (hawake : Awake s) (h : s.hostStep = some (observed,s')) : Awake s' := by
  have hinv := (hawake.inv.carries_host h).inv
  rw [hostStep] at h
  cases hhost : s.host with
  | none =>
    rw [hhost] at h
    cases h
  | some callback =>
    simp only [hhost] at h
    obtain ⟨⟨callback',stream⟩,hstep,heq⟩ := Option.map_eq_some_iff.mp h
    cases heq
    have howned : Owned s.stream.port (callback :: s.reader.callback?.toList) := by
      have howned := hawake.inv.owned
      rw [callbacks,hhost] at howned
      exact howned
    have hpacket := hawake.packet
    rw [callbacks,hhost] at hpacket
    refine ⟨hinv,Nat.le_trans (onWay_step howned hstep) hpacket,?_,?_⟩
    · intro hnothing htokens
      cases callback' with
      | none =>
        obtain ⟨-,rfl⟩ := Callback.step_eq_none hstep
        cases htokens
      | some callback' =>
        have hbefore := (hawake.data hnothing (Callback.step_tokens hstep ▸ htokens)).2
        have htext := congrArg List.length (howned.step hstep).2.2.2
        rw [callback_of_foundNothing hnothing,List.length_append,List.length_append,
          List.length_append,List.length_append] at htext
        rw [hhost] at hbefore
        exact ⟨(fun hnone => by cases hnone),Nat.le_trans (Nat.le_of_eq htext) hbefore⟩
    · intro hundecided hmax hsome
      rcases hawake.mail hundecided hmax hsome with hposting | htokens
      · exact .inl hposting
      · cases callback' with
        | none =>
          obtain ⟨-,rfl⟩ := Callback.step_eq_none hstep
          exact .inr (Nat.succ_pos _)
        | some callback' => exact .inr ((Callback.step_tokens hstep).symm ▸ htokens)

theorem Awake.step (hawake : Awake s) (h : s.step a = some (observed,s')) : Awake s' := by
  have hinv := (carries_step hawake.inv h).inv
  cases a with
  | arrive packet =>
    simp only [State.step] at h
    split_ifs at h with hc
    have hlocked := hawake.inv.owned.flight hc.1
    have hheld := Owned.held_signals (hawake.inv.owned.of_locked hlocked).2
    have hbound : packet.length ≤ maxInEndpoint := hc.2.2
    rw [callbacks,hc.2.1,Option.toList_none,List.nil_append] at hheld
    cases henabled : s.stream.port.enabled with
    | true =>
      rw [Port.rxHandler,if_pos henabled] at h
      cases h
      refine ⟨hinv,?_,?_,hawake.mail⟩
      · rw [callbacks]
        simp only [Option.toList_some,List.flatMap_append,hheld]
        exact Nat.le_trans (Nat.le_of_eq (Nat.zero_add _)) hbound
      · intro hnothing htokens
        rw [(hawake.data hnothing htokens).1 hc.2.1]
        exact ⟨fun _ => rfl,Nat.le_trans (Nat.le_of_eq (Nat.zero_add _)) hbound⟩
    | false =>
      rw [Port.rxHandler,if_neg (by rw [henabled]; exact Bool.false_ne_true)] at h
      cases h
      refine ⟨hinv,?_,?_,hawake.mail⟩
      · rw [callbacks]
        simp only [hc.2.1,Option.toList_none,List.nil_append,hheld]
        exact Nat.le_trans (Nat.le_of_eq (Nat.zero_add _)) hbound
      · intro hnothing htokens
        rw [(hawake.data hnothing htokens).1 hc.2.1]
        refine ⟨fun _ => rfl,?_⟩
        rw [hc.2.1]
        exact Nat.le_trans (Nat.le_of_eq (Nat.zero_add _)) hbound
  | fail =>
    simp only [State.step] at h
    split_ifs at h
    cases h
    exact ⟨hinv,hawake.packet,hawake.data,hawake.mail⟩
  | host => exact hawake.step_host h
  | reader maxLength => exact hawake.step_reader h
  | put =>
    simp only [State.step] at h
    split_ifs at h
    cases h
    exact ⟨hinv,hawake.packet,hawake.data,fun _ _ _ => .inl rfl⟩
  | abortRead =>
    simp only [State.step] at h
    split_ifs at h
    cases h
    exact ⟨hinv,hawake.packet,(fun _ hzero => by cases hzero),fun _ _ _ => .inr (Nat.succ_pos _)⟩

/-- The port is locked, but not by a transfer that goes on. -/
structure Silent (s : State) : Prop where
  inv : Inv s
  locked : s.stream.port.locked = true
  idle : s.stream.port.inFlight = false

theorem setupIrq_keeps (en : Bool) (p : Port) :
    (p.setupIrq en).2.locked = p.locked ∧ (p.setupIrq en).2.inFlight = p.inFlight := by
  unfold Port.setupIrq
  split_ifs <;> exact ⟨rfl,rfl⟩

theorem resume_observes (s : State) (after : After) (packet : List Char) :
    .received packet ∉ (s.resume after).1 := by
  cases after with
  | read taken => simp [resume]
  | counted use len => cases use <;> exact List.not_mem_nil

/-- The reading thread does not unlock the port. -/
theorem reader_keeps (hcallback : ∀ callback ∈ s.reader.callback?, callback = .signal)
    {maxLength : Nat} (h : s.readerStep maxLength = some (observed,s')) :
    (s'.stream.port.locked = s.stream.port.locked ∧
      s'.stream.port.inFlight = s.stream.port.inFlight) ∧
      ∀ packet, .received packet ∉ observed := by
  cases hreader : s.reader with
  | unmask after =>
    have hkeeps := setupIrq_keeps true s.stream.port
    simp only [readerStep,hreader] at h
    cases hport : s.stream.port.setupIrq true with
    | mk called port =>
      rw [hport] at hkeeps
      cases called with
      | true =>
        simp only [hport] at h
        cases h
        exact ⟨hkeeps,fun _ => List.not_mem_nil⟩
      | false =>
        simp only [hport] at h
        have hresumed := Option.some.inj h
        have hstream := (resume_spec
          { s with reader := .unmask after,stream.port := port } after).1
        have hobserves := resume_observes
          { s with reader := .unmask after,stream.port := port } after
        rw [hresumed] at hstream hobserves
        rw [hstream]
        exact ⟨hkeeps,hobserves⟩
  | running after callback =>
    rw [hreader] at hcallback
    obtain rfl := hcallback callback rfl
    simp only [readerStep,hreader,Callback.step] at h
    have hresumed := Option.some.inj h
    have hstream := (resume_spec
      { s with
        reader := .running after .signal
        stream := { s.stream with tokens := s.stream.tokens + 1 } } after).1
    have hobserves := resume_observes
      { s with
        reader := .running after .signal
        stream := { s.stream with tokens := s.stream.tokens + 1 } } after
    rw [hresumed] at hstream hobserves
    rw [hstream]
    exact ⟨⟨rfl,rfl⟩,hobserves⟩
  | sendCommand =>
    simp only [readerStep,hreader] at h
    cases h
    refine ⟨⟨rfl,rfl⟩,fun packet => ?_⟩
    split_ifs <;> simp
  | drain =>
    simp only [readerStep,hreader] at h
    split_ifs at h
    · cases hmax : s.maxLength <;> simp only [hmax] at h <;> cases h <;>
        exact ⟨⟨rfl,rfl⟩,fun _ => List.not_mem_nil⟩
    · cases h
      exact ⟨⟨rfl,rfl⟩,fun _ => List.not_mem_nil⟩
  | dequeue readLen taken =>
    cases readLen with
    | zero =>
      simp only [readerStep,hreader] at h
      cases h
      exact ⟨⟨rfl,rfl⟩,fun _ => List.not_mem_nil⟩
    | succ readLen =>
      simp only [readerStep,hreader] at h
      split at h <;> cases h <;> exact ⟨⟨rfl,rfl⟩,fun _ => List.not_mem_nil⟩
  | waiting =>
    simp only [readerStep,hreader] at h
    split_ifs at h <;> cases h <;> exact ⟨⟨rfl,rfl⟩,fun _ => List.not_mem_nil⟩
  | _ =>
    simp only [readerStep,hreader] at h
    cases h
    exact ⟨⟨rfl,rfl⟩,fun _ => List.not_mem_nil⟩

theorem silent_step (hsilent : Silent s) (h : s.step a = some (observed,s')) :
    Silent s' ∧ ∀ packet, .received packet ∉ observed := by
  have hinv := (carries_step hsilent.inv h).inv
  have hsignals := (hsilent.inv.owned.of_locked hsilent.locked).2
  cases a with
  | arrive packet =>
    simp only [step] at h
    split_ifs at h with hc
    cases hsilent.idle.symm.trans hc.1
  | fail =>
    simp only [step] at h
    split_ifs at h with hc
    cases hsilent.idle.symm.trans hc
  | host =>
    cases hhost : s.host with
    | none =>
      simp only [step,hostStep,hhost] at h
      cases h
    | some callback =>
      obtain rfl : callback = .signal := by
        refine hsignals callback ?_
        rw [callbacks,hhost]
        exact List.mem_cons_self
      simp only [step,hostStep,hhost] at h
      cases h
      exact ⟨⟨hinv,hsilent.locked,hsilent.idle⟩,fun _ => List.not_mem_nil⟩
  | reader maxLength =>
    have hcallback : ∀ callback ∈ s.reader.callback?, callback = .signal := by
      intro callback hmem
      refine hsignals callback (List.mem_append_right _ ?_)
      rw [Option.mem_def.mp hmem]
      exact List.mem_cons_self
    obtain ⟨⟨hlocked,hidle⟩,hobserved⟩ := reader_keeps hcallback h
    exact ⟨⟨hinv,hlocked.trans hsilent.locked,hidle.trans hsilent.idle⟩,hobserved⟩
  | put =>
    simp only [step] at h
    split_ifs at h
    cases h
    exact ⟨⟨hinv,hsilent.locked,hsilent.idle⟩,fun _ => List.not_mem_nil⟩
  | abortRead =>
    simp only [step] at h
    split_ifs at h
    cases h
    exact ⟨⟨hinv,hsilent.locked,hsilent.idle⟩,fun _ => List.not_mem_nil⟩

/-- A transfer that has failed is the last one: the port receives nothing any more. -/
theorem run_silent {inBuf : List Char} {hsize : inBuf.length = circBufSize}
    (h : Transition.Reaches step (start inBuf hsize) s) (hlocked : s.stream.port.locked = true)
    (hidle : s.stream.port.inFlight = false) {inputs : List Action}
    {outputs : List (List Observation)}
    (hrun : Transition.run step s inputs = some (outputs,s')) :
    ∀ packet, .received packet ∉ outputs.flatten := by
  have hkeeps := Transition.run_observes_all
    (I := fun trace s => Silent s ∧ ∀ packet, .received packet ∉ trace) ?_ inputs s [] ?_ hrun
  · exact hkeeps.2
  · rintro trace s a observed s' ⟨hsilent,htrace⟩ hstep
    obtain ⟨hafter,hobserved⟩ := silent_step hsilent hstep
    refine ⟨hafter,fun packet hmem => ?_⟩
    rcases List.mem_append.mp hmem with hmem | hmem
    · exact htrace packet hmem
    · exact hobserved packet hmem
  · exact ⟨⟨inv_of_reaches h,hlocked,hidle⟩,fun _ => List.not_mem_nil⟩

theorem run_silent_failed :
    ∃ outputs s', Transition.run step
      { start (List.replicate circBufSize nul) List.length_replicate with
        stream.port := ⟨true,false,[],true,false⟩ } [.reader 0,.put,.abortRead] =
          some (outputs,s') ∧ ∀ packet, .received packet ∉ outputs.flatten :=
  ⟨_,_,rfl,@run_silent _ _ (List.replicate circBufSize nul) List.length_replicate
    ⟨[.fail],_,rfl⟩ rfl rfl [.reader 0,.put,.abortRead] _ rfl⟩

end State

end Pyrn.Modem.Rx
