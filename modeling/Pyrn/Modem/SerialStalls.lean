import Pyrn.Modem.SerialWrite

/-!
# Characters that are not sent

Behind a call of `write` the transfers bring everything out. A callback that has found the buffer
empty says so later: what is written in between stays where it is, until `write` is called again.
-/

namespace Pyrn.Modem.Tx

/-- The steps that are left to a callback, when the packet that it fills and the transfer that it
starts count as well. -/
def Callback.weight (p : Port) : Callback → Nat
  | isEmpty => 10
  | setEmpty => 5
  | setBusy => 9
  | testPort => if p.bufOut = [] then 8 else 24
  | testBuf => if p.bufOut = [] then 7 else 23
  | dequeue => if p.bufOut = [] then 6 else 22
  | put _ => 25
  | packet => 14
  | isFull => if p.locked then 13 else 2
  | release => if p.locked then 12 else 1

namespace State

variable {s s' : State} {observed : List Observation} {a : Action}

def weight (s : State) : Nat :=
  20 * s.stream.outBuf.contents.length +
    match s.host with
    | some callback => callback.weight s.stream.port
    | none => if s.stream.port.locked then 11 else 0

/-- The host has found the buffer empty, and characters have come into it since. -/
def Stalled (s : State) : Prop :=
  (s.stream.fifoEmpty = true ∨ s.host = some .setEmpty) ∧ s.stream.outBuf.contents ≠ []

/-- Nobody writes, no transfer has failed, and what is in the buffer will be looked for. -/
structure Live (s : State) : Prop where
  inv : Inv s
  outside : s.writer = .outside
  port : 0 < s.stream.port.maxOutSize
  going : s.stream.port.locked = true → s.stream.port.inFlight = true
  found : ¬s.Stalled

theorem Live.own (h : Live s) {callback : Callback} (hhost : s.host = some callback) :
    Owned s.stream [callback] := by
  have howned := h.inv.owned
  rw [callbacks,hhost,h.outside] at howned
  exact howned

theorem Live.busy (h : Live s) {callback : Callback} (hhost : s.host = some callback)
    (hdrains : callback.drains = true) : s.stream.fifoEmpty = false := by
  cases hidle : s.stream.fifoEmpty with
  | false => rfl
  | true =>
    have hrest := h.inv.at_rest hidle callback (by rw [hhost]; exact List.mem_cons_self)
    cases hrest.symm.trans hdrains

theorem weight_of_host {callback : Callback} (hhost : s.host = some callback) :
    s.weight = 20 * s.stream.outBuf.contents.length + callback.weight s.stream.port := by
  rw [weight,hhost]

theorem not_stalled_of_busy (hbusy : s.stream.fifoEmpty = false) (hhost : s.host ≠ some .setEmpty) :
    ¬s.Stalled := by
  rintro ⟨hidle | hset,-⟩
  · cases hbusy.symm.trans hidle
  · exact hhost hset

theorem locked_going {p : Port} (hlocked : p.locked = false) :
    p.locked = true → p.inFlight = true :=
  fun htrue => by cases hlocked.symm.trans htrue

/-- The callback on the thread of the host gets on. -/
theorem Live.host_step (h : Live s) {callback : Callback} (hhost : s.host = some callback) :
    Live { s with host := (callback.step s.stream).1,stream := (callback.step s.stream).2 } ∧
      weight { s with host := (callback.step s.stream).1,stream := (callback.step s.stream).2 } <
        s.weight := by
  have hstep : s.step .host = some ([],{ s with
      host := (callback.step s.stream).1,stream := (callback.step s.stream).2 }) := by
    simp only [step,hostStep,hhost,Option.map_some]
  have hinv := (carries_step h.inv hstep).inv
  have howned := h.own hhost
  have hbusy := h.busy hhost
  rw [weight_of_host hhost]
  cases callback with
  | isEmpty =>
    cases hempty : s.stream.outBuf.isEmpty with
    | true =>
      have hcontents := MtxCircBuffer.isEmpty_iff.mp hempty
      simp only [Callback.step,hempty,if_true] at hinv ⊢
      refine ⟨⟨hinv,h.outside,h.port,h.going,fun hstalled => hstalled.2 hcontents⟩,?_⟩
      simp only [weight,Callback.weight]
      exact Nat.add_lt_add_left (by decide) _
    | false =>
      simp only [Callback.step,hempty,Bool.false_eq_true,if_false] at hinv ⊢
      refine ⟨⟨hinv,h.outside,h.port,h.going,
        not_stalled_of_busy (hbusy rfl) (fun heq => by cases heq)⟩,?_⟩
      simp only [weight,Callback.weight]
      exact Nat.add_lt_add_left (by decide) _
  | setEmpty =>
    have hcontents : s.stream.outBuf.contents = [] :=
      not_not.mp fun hne => h.found ⟨.inr hhost,hne⟩
    have hlocked := (howned.alone rfl).1
    refine ⟨⟨hinv,h.outside,h.port,h.going,fun hstalled => hstalled.2 hcontents⟩,?_⟩
    simp only [Callback.step,weight,Callback.weight,hlocked]
    exact Nat.add_lt_add_left (by decide) _
  | setBusy =>
    have hfresh := howned.fresh_of_alone rfl rfl
    refine ⟨⟨hinv,h.outside,h.port,h.going,not_stalled_of_busy rfl (fun heq => by cases heq)⟩,?_⟩
    simp only [Callback.step,weight,Callback.weight,hfresh]
    exact Nat.add_lt_add_left (by decide) _
  | testPort =>
    have hlocked := (howned.alone rfl).1
    have hwriteable : s.stream.port.writeable =
        s.stream.port.maxOutSize - s.stream.port.bufOut.length :=
      if_neg (by rw [hlocked]; exact Bool.false_ne_true)
    by_cases hroom : s.stream.port.writeable ≠ 0
    · simp only [Callback.step,if_pos hroom] at hinv ⊢
      refine ⟨⟨hinv,h.outside,h.port,h.going,
        not_stalled_of_busy (hbusy rfl) (fun heq => by cases heq)⟩,?_⟩
      simp only [weight,Callback.weight]
      split_ifs <;> exact Nat.add_lt_add_left (by decide) _
    · simp only [Callback.step,if_neg hroom] at hinv ⊢
      refine ⟨⟨hinv,h.outside,h.port,h.going,
        not_stalled_of_busy (hbusy rfl) (fun heq => by cases heq)⟩,?_⟩
      have hput : s.stream.port.bufOut ≠ [] := by
        intro hnil
        rw [hwriteable,hnil] at hroom
        exact hroom (Nat.pos_iff_ne_zero.mp h.port)
      simp only [weight,Callback.weight,if_neg hput]
      exact Nat.add_lt_add_left (by decide) _
  | testBuf =>
    cases hempty : s.stream.outBuf.isEmpty with
    | true =>
      have hput : s.stream.port.bufOut ≠ [] := fun hnil =>
        howned.more _ List.mem_cons_self rfl hnil (MtxCircBuffer.isEmpty_iff.mp hempty)
      simp only [Callback.step,hempty,if_true] at hinv ⊢
      refine ⟨⟨hinv,h.outside,h.port,h.going,
        not_stalled_of_busy (hbusy rfl) (fun heq => by cases heq)⟩,?_⟩
      simp only [weight,Callback.weight,if_neg hput]
      exact Nat.add_lt_add_left (by decide) _
    | false =>
      simp only [Callback.step,hempty,Bool.false_eq_true,if_false] at hinv ⊢
      refine ⟨⟨hinv,h.outside,h.port,h.going,
        not_stalled_of_busy (hbusy rfl) (fun heq => by cases heq)⟩,?_⟩
      simp only [weight,Callback.weight]
      split_ifs <;> exact Nat.add_lt_add_left (by decide) _
  | dequeue =>
    cases hdequeue : s.stream.outBuf.dequeue with
    | none =>
      exact absurd (MtxCircBuffer.dequeue_eq_none_iff.mp hdequeue) (howned.some List.mem_cons_self)
    | some taken =>
      obtain ⟨c,outBuf⟩ := taken
      have hcontents := MtxCircBuffer.contents_dequeue hdequeue
      simp only [Callback.step,hdequeue] at hinv ⊢
      refine ⟨⟨hinv,h.outside,h.port,h.going,
        not_stalled_of_busy (hbusy rfl) (fun heq => by cases heq)⟩,?_⟩
      simp only [weight,Callback.weight,hcontents,List.length_cons]
      split_ifs <;> omega
  | put c =>
    have hlocked := (howned.alone rfl).1
    have hputc : s.stream.port.putc c =
        { s.stream.port with bufOut := s.stream.port.bufOut ++ [c] } := by
      rw [Port.putc,if_neg (by rw [hlocked]; exact Bool.false_ne_true),
        if_pos (howned.room _ List.mem_cons_self (.inr (.inr ⟨c,rfl⟩)))]
    have hput : s.stream.port.bufOut ++ [c] ≠ [] :=
      List.append_ne_nil_of_right_ne_nil _ (List.cons_ne_nil _ _)
    simp only [Callback.step,hputc] at hinv ⊢
    refine ⟨⟨hinv,h.outside,h.port,h.going,
      not_stalled_of_busy (hbusy rfl) (fun heq => by cases heq)⟩,?_⟩
    simp only [weight,Callback.weight,if_neg hput]
    exact Nat.add_lt_add_left (by decide) _
  | packet =>
    have hlocked := (howned.alone rfl).1
    have hwrite : s.stream.port.writePacket =
        { s.stream.port with locked := true,inFlight := true } :=
      if_neg (by rw [hlocked]; exact Bool.false_ne_true)
    simp only [Callback.step,hwrite] at hinv ⊢
    refine ⟨⟨hinv,h.outside,h.port,fun _ => rfl,
      not_stalled_of_busy (hbusy rfl) (fun heq => by cases heq)⟩,?_⟩
    simp only [weight,Callback.weight]
    exact Nat.add_lt_add_left (by decide) _
  | isFull =>
    cases hfull : s.stream.outBuf.isFull with
    | true =>
      simp only [Callback.step,hfull,if_true] at hinv ⊢
      refine ⟨⟨hinv,h.outside,h.port,h.going,fun hstalled => ?_⟩,?_⟩
      · exact h.found ⟨.inl (hstalled.1.resolve_right fun heq => by cases heq),hstalled.2⟩
      · simp only [weight,Callback.weight]
        split_ifs <;> exact Nat.add_lt_add_left (by decide) _
    | false =>
      simp only [Callback.step,hfull,Bool.false_eq_true,if_false] at hinv ⊢
      refine ⟨⟨hinv,h.outside,h.port,h.going,fun hstalled => ?_⟩,?_⟩
      · exact h.found ⟨.inl (hstalled.1.resolve_right fun heq => by cases heq),hstalled.2⟩
      · simp only [weight,Callback.weight]
        split_ifs <;> exact Nat.add_lt_add_left (by decide) _
  | release =>
    refine ⟨⟨hinv,h.outside,h.port,h.going,fun hstalled => ?_⟩,?_⟩
    · exact h.found ⟨.inl (hstalled.1.resolve_right fun heq => by cases heq),hstalled.2⟩
    · cases hlocked : s.stream.port.locked <;>
        simp only [Callback.step,weight,Callback.weight,hlocked] <;>
        exact Nat.add_lt_add_left (by decide) _

/-- As long as something is on the way, the host gets on. -/
theorem Live.next (h : Live s) (hunsent : s.unsent ≠ []) :
    ∃ a observed s', (∀ text, a ≠ .write text) ∧ s.step a = some (observed,s') ∧ Live s' ∧
      s'.weight < s.weight := by
  cases hhost : s.host with
  | some callback =>
    have hstep : s.step .host = some ([],{ s with
        host := (callback.step s.stream).1,stream := (callback.step s.stream).2 }) := by
      simp only [step,hostStep,hhost,Option.map_some]
    exact ⟨.host,[],_,fun _ => by simp,hstep,h.host_step hhost⟩
  | none =>
    have howned := h.inv.host (by rw [h.outside]; rfl)
    rw [hhost] at howned
    have hpending : s.stream.port.pending = false := by
      cases hp : s.stream.port.pending with
      | false => rfl
      | true =>
        have hmasked := h.inv.pending hp
        rw [h.outside] at hmasked
        cases hmasked
    have henabled : s.stream.port.enabled = true := by
      rw [h.inv.enabled,h.outside]
      rfl
    have hbusy : s.stream.fifoEmpty = false := by
      cases hidle : s.stream.fifoEmpty with
      | false => rfl
      | true =>
        have hcontents : s.stream.outBuf.contents = [] :=
          not_not.mp fun hne => h.found ⟨.inl hidle,hne⟩
        have hfresh := howned.fresh (howned.idle hidle).1 fun _ hmem => by cases hmem
        refine absurd ?_ hunsent
        rw [unsent_of_idle (by rw [h.outside]; rfl),hhost,hcontents,hfresh]
        rfl
    have hlocked : s.stream.port.locked = true := by
      have hone := howned.busy hbusy
      rw [hpending] at hone
      exact Bool.toNat_eq_one.mp hone
    have hstep : s.step .complete = some ([.sent s.stream.port.bufOut],
        { s with
          host := some .isEmpty
          stream.port :=
            { s.stream.port with bufOut := [],locked := false,inFlight := false } }) := by
      simp only [step,if_pos (And.intro (h.going hlocked) hhost),Port.txHandler,if_pos henabled]
    refine ⟨.complete,_,_,fun _ => by simp,hstep,⟨(carries_step h.inv hstep).inv,h.outside,h.port,
      (fun htrue => by cases htrue),not_stalled_of_busy hbusy (fun heq => by cases heq)⟩,?_⟩
    simp only [weight,hhost,hlocked,Callback.weight]
    exact Nat.add_lt_add_left (by decide) _

theorem Live.sends (h : Live s) : ∃ inputs outputs s', (∀ text, .write text ∉ inputs) ∧
    Transition.run step s inputs = some (outputs,s') ∧ s'.unsent = [] := by
  induction hn : s.weight using Nat.strong_induction_on generalizing s with
  | _ n ih =>
    by_cases hunsent : s.unsent = []
    · exact ⟨[],[],s,fun _ => List.not_mem_nil,rfl,hunsent⟩
    · obtain ⟨a,observed,s₁,hwrite,hstep,hlive,hless⟩ := h.next hunsent
      obtain ⟨inputs,outputs,s',hinputs,hrun,hsent⟩ := ih _ (hn ▸ hless) hlive rfl
      refine ⟨a :: inputs,observed :: outputs,s',fun text hmem => ?_,
        (Transition.run_cons_eq_some_iff hstep).mpr ⟨outputs,rfl,hrun⟩,hsent⟩
      rcases List.mem_cons.mp hmem with heq | hmem
      · exact hwrite text heq.symm
      · exact hinputs text hmem

/-- Without another `write`, a stalled stream stays as it is. -/
theorem stalled_step (hi : Inv s) (houtside : s.writer = .outside) (hstalled : s.Stalled)
    (hwrite : ∀ text, a ≠ .write text) (h : s.step a = some (observed,s')) :
    s'.writer = .outside ∧ s'.Stalled := by
  have hfree : s.stream.port.inFlight = false := by
    cases hfly : s.stream.port.inFlight with
    | false => rfl
    | true =>
      obtain ⟨-,hbusy,hrest⟩ := hi.owned.of_busy (.inl (hi.owned.flight hfly))
      rcases hstalled.1 with hidle | hset
      · cases hbusy.symm.trans hidle
      · have hmem : Callback.setEmpty ∈ s.callbacks := by
          rw [callbacks,hset]
          exact List.mem_cons_self
        cases hrest .setEmpty hmem
  cases a with
  | write text => exact absurd rfl (hwrite text)
  | writer =>
    simp only [step,writerStep,houtside] at h
    cases h
  | complete =>
    simp only [step] at h
    split_ifs at h with hc
    cases hfree.symm.trans hc.1
  | fail =>
    simp only [step] at h
    split_ifs at h with hc
    cases hfree.symm.trans hc
  | host =>
    cases hhost : s.host with
    | none =>
      simp only [step,hostStep,hhost] at h
      cases h
    | some callback =>
      simp only [step,hostStep,hhost,Option.map_some] at h
      cases h
      refine ⟨houtside,?_⟩
      by_cases hset : callback = .setEmpty
      · subst hset
        exact ⟨.inl rfl,hstalled.2⟩
      · have hidle : s.stream.fifoEmpty = true :=
          hstalled.1.resolve_right fun heq => hset (Option.some.inj (hhost.symm.trans heq))
        have hdrains := hi.at_rest hidle callback (by rw [hhost]; exact List.mem_cons_self)
        refine ⟨.inl ((fifoEmpty_step s.stream hdrains).trans hidle),?_⟩
        cases callback with
        | isFull => exact hstalled.2
        | release => exact hstalled.2
        | _ => cases hdrains

theorem inv_of_reaches {maxOutSize : Nat} {outBuf : List Char}
    {hsize : outBuf.length = circBufSize + 1}
    (h : Transition.Reaches step (start maxOutSize outBuf hsize) s) : Inv s := by
  obtain ⟨inputs,outputs,hrun⟩ := h
  exact Transition.run_invariant (fun _ _ _ _ hi hstep => (carries_step hi hstep).inv)
    (inv_start maxOutSize outBuf hsize) hrun

/-- Behind `write`, and unless a transfer has failed: what has been written can be sent without
another call of `write` exactly when the host has not missed it. -/
theorem sends_iff {maxOutSize : Nat} {outBuf : List Char} {hsize : outBuf.length = circBufSize + 1}
    (h : Transition.Reaches step (start maxOutSize outBuf hsize) s)
    (hpos : 0 < s.stream.port.maxOutSize) (houtside : s.writer = .outside)
    (hgoing : s.stream.port.locked = true → s.stream.port.inFlight = true) :
    (∃ inputs outputs s', (∀ text, .write text ∉ inputs) ∧
      Transition.run step s inputs = some (outputs,s') ∧ s'.unsent = []) ↔ ¬s.Stalled := by
  have hi := inv_of_reaches h
  constructor
  · rintro ⟨inputs,outputs,s',hinputs,hrun,hsent⟩ hstalled
    have hok : Transition.Meets step (fun _ a => ∀ text, a ≠ .write text) s inputs :=
      Transition.meets_of_forall_mem (fun a hmem _ text => ne_of_mem_of_not_mem hmem
        (hinputs text)) s
    have hkeeps := Transition.run_observes
      (I := fun _ s => Inv s ∧ s.writer = .outside ∧ s.Stalled) ?_ inputs s [] ?_ hok hrun
    · refine hkeeps.2.2.2 ?_
      rw [unsent] at hsent
      exact (List.append_eq_nil_iff.mp hsent).2
    · rintro trace s a observed s' ⟨hi,houtside,hstalled⟩ hwrite hstep
      exact ⟨(carries_step hi hstep).inv,stalled_step hi houtside hstalled hwrite hstep⟩
    · exact ⟨hi,houtside,hstalled⟩
  · exact fun hstalled => (Live.mk hi houtside hpos hgoing hstalled).sends

/-- The second of two commands comes between the look of the host into the buffer and its note. -/
theorem sends_iff_missed :
    ∃ s, Transition.Reaches step
        (start 64 (List.replicate (circBufSize + 1) nul) List.length_replicate) s ∧
      s.writer = .outside ∧ ¬∃ inputs outputs s', (∀ text, .write text ∉ inputs) ∧
        Transition.run step s inputs = some (outputs,s') ∧ s'.unsent = [] := by
  have hrun : (Transition.run step
      (start 64 (List.replicate (circBufSize + 1) nul) List.length_replicate)
      ([.write ['a']] ++ List.replicate 24 .writer ++ [.complete,.host,.write ['b']] ++
        List.replicate 14 .writer)).map (fun reached => (reached.2.writer,reached.2.host,
          reached.2.stream.port,reached.2.stream.outBuf.contents)) =
      some (.outside,some .setEmpty,⟨64,false,false,[],true,false⟩,['b']) := by decide +kernel
  obtain ⟨⟨outputs,s⟩,hreached,heq⟩ := Option.map_eq_some_iff.mp hrun
  simp only [Prod.mk.injEq] at heq
  obtain ⟨houtside,hhost,hport,hcontents⟩ := heq
  refine ⟨s,⟨_,outputs,hreached⟩,houtside,?_⟩
  rw [sends_iff ⟨_,outputs,hreached⟩ (by rw [hport]; decide) houtside (by rw [hport]; decide),
    not_not,Stalled,hhost,hcontents]
  exact ⟨.inr rfl,List.cons_ne_nil _ _⟩

/-- Where the writing thread goes on to put something into the buffer, or to the end of `write`, if
there is room, and the token that it waits for says so. -/
def Provided (room token : Prop) (text : List Char) : Writer → Prop
  | .outside => False
  | .mask use => use ≠ .testing ∧ room
  | .count use => use ≠ .testing ∧ room
  | .unmask (.counted use len) => use ≠ .testing ∧ 0 < len ∧ room
  | .running (.counted use len) _ => use ≠ .testing ∧ 0 < len ∧ room
  | .waiting => token
  | .drain => room
  | .maskWrite chunk => chunk ≠ [] ∨ text = []
  | .queue chunk => chunk ≠ [] ∨ text = []
  | .unmask .written => text = []
  | .running .written _ => text = []
  | .checkBuf => text = []
  | .checkEmpty => text = []
  | .kick _ => text = []

theorem Provided.mono {room token room' token' : Prop} {text : List Char} {writer : Writer}
    (h : Provided room token text writer) (hroom : room → room') (htoken : token → token') :
    Provided room' token' text writer := by
  cases writer with
  | mask use => exact ⟨h.1,hroom h.2⟩
  | count use => exact ⟨h.1,hroom h.2⟩
  | waiting => exact htoken h
  | drain => exact hroom h
  | unmask after =>
    cases after with
    | counted use len => exact ⟨h.1,h.2.1,hroom h.2.2⟩
    | written => exact h
  | running after callback =>
    cases after with
    | counted use len => exact ⟨h.1,h.2.1,hroom h.2.2⟩
    | written => exact h
  | _ => exact h

def Room (s : State) : Prop := s.stream.outBuf.contents.length < circBufSize

/-- A token comes when there is room. -/
def Honest (s : State) : Prop := s.Room ∨ s.stream.tokens = 0 ∧ s.host ≠ some .release

def Safe (s : State) : Prop := Provided s.Room s.Honest s.text s.writer

/-- A callback takes nothing away from the room. -/
theorem length_step (callback : Callback) (stream : Stream) :
    (callback.step stream).2.outBuf.contents.length ≤ stream.outBuf.contents.length := by
  cases callback with
  | dequeue =>
    rw [Callback.step]
    cases hdequeue : stream.outBuf.dequeue with
    | none => exact Nat.le_refl _
    | some taken =>
      obtain ⟨c,outBuf⟩ := taken
      rw [MtxCircBuffer.contents_dequeue hdequeue]
      exact Nat.le_succ _
  | _ => exact Nat.le_refl _

/-- The host posts a token only where it has seen room. -/
theorem Honest.host_step (h : s.Honest) {callback : Callback} (hhost : s.host = some callback) :
    Honest { s with host := (callback.step s.stream).1,stream := (callback.step s.stream).2 } := by
  have hle := length_step callback s.stream
  rcases h with hroom | ⟨htokens,hrelease⟩
  · exact .inl (Nat.lt_of_le_of_lt hle hroom)
  · rw [hhost] at hrelease
    cases callback with
    | release => exact absurd rfl hrelease
    | isFull =>
      cases hfull : s.stream.outBuf.isFull with
      | true =>
        refine .inr ⟨htokens,?_⟩
        simp [Callback.step,hfull]
      | false =>
        refine .inl ?_
        have hnot := mt MtxCircBuffer.isFull_iff.mpr (Bool.eq_false_iff.mp hfull)
        have hlt := s.stream.outBuf.available_lt
        rw [← MtxCircBuffer.length_contents] at hlt
        simp only [Callback.step,Room]
        unfold circBufSize at *
        omega
    | dequeue =>
      refine .inr ?_
      rw [Callback.step]
      split <;> exact ⟨htokens,fun heq => by cases heq⟩
    | isEmpty =>
      refine .inr ⟨htokens,?_⟩
      simp only [Callback.step]
      split_ifs <;> exact fun heq => by cases heq
    | testPort =>
      refine .inr ⟨htokens,?_⟩
      simp only [Callback.step]
      split_ifs <;> exact fun heq => by cases heq
    | testBuf =>
      refine .inr ⟨htokens,?_⟩
      simp only [Callback.step]
      split_ifs <;> exact fun heq => by cases heq
    | _ => exact .inr ⟨htokens,fun heq => by cases heq⟩

end State

def Observation.ofWriter : Observation → Bool
  | sent _ => false
  | _ => true

namespace State

variable {s s' : State} {observed : List Observation} {a : Action}

/-- What the writing thread shows first, if anything, is not that it was interrupted. -/
def Passes (observed : List Observation) (s : State) : Prop :=
  observed.filter Observation.ofWriter = [] ∧ s.Safe ∨
    ∃ o rest, observed.filter Observation.ofWriter = o :: rest ∧ ∀ text, o ≠ .interrupted text

theorem safe_resume (s : State) (after : After)
    (h : Provided s.Room s.Honest s.text (.unmask after)) :
    Passes (s.resume after).1 (s.resume after).2 := by
  cases after with
  | written =>
    have htext : s.text = [] := h
    simp only [resume,if_pos htext]
    exact .inr ⟨.done,[],rfl,fun _ heq => by cases heq⟩
  | counted use len =>
    obtain ⟨huse,hlen,hroom⟩ := h
    cases use with
    | testing => exact absurd rfl huse
    | retesting =>
      simp only [resume,if_neg (Nat.pos_iff_ne_zero.mp hlen)]
      exact .inl ⟨rfl,hroom⟩
    | measuring =>
      refine .inl ⟨rfl,?_⟩
      change s.text.take (min len s.text.length) ≠ [] ∨ s.text.drop (min len s.text.length) = []
      cases s.text with
      | nil => exact .inr List.drop_nil
      | cons c text =>
        left
        rw [Ne,List.take_eq_nil_iff]
        rintro (hzero | hnil)
        · rw [List.length_cons] at hzero
          omega
        · cases hnil

theorem safe_writer (h : s.Safe) (hstep : s.writerStep = some (observed,s')) :
    Passes observed s' := by
  rw [Safe] at h
  cases hwriter : s.writer with
  | outside =>
    rw [hwriter] at h
    exact h.elim
  | mask use =>
    rw [hwriter] at h
    simp only [writerStep,hwriter] at hstep
    cases hstep
    exact .inl ⟨rfl,h⟩
  | count use =>
    rw [hwriter] at h
    simp only [writerStep,hwriter] at hstep
    cases hstep
    have hroom : s.stream.outBuf.contents.length < circBufSize := h.2
    rw [MtxCircBuffer.length_contents] at hroom
    exact .inl ⟨rfl,h.1,Nat.sub_pos_of_lt hroom,h.2⟩
  | unmask after =>
    rw [hwriter] at h
    simp only [writerStep,hwriter] at hstep
    split at hstep
    · cases hstep
      refine .inl ⟨rfl,?_⟩
      cases after <;> exact h
    · rename_i port hport
      have hresume := safe_resume
        { s with writer := .unmask after,stream.port := port } after h
      rw [Option.some.inj hstep] at hresume
      exact hresume
  | running after callback =>
    rw [hwriter] at h
    have hle := length_step callback s.stream
    have hroom : s.Room → Room { s with stream := (callback.step s.stream).2 } :=
      fun hroom => Nat.lt_of_le_of_lt hle hroom
    simp only [writerStep,hwriter] at hstep
    split at hstep
    · rename_i callback' stream heq
      rw [heq] at hroom
      cases hstep
      refine .inl ⟨rfl,?_⟩
      cases after with
      | counted use len => exact ⟨h.1,h.2.1,hroom h.2.2⟩
      | written => exact h
    · rename_i stream heq
      rw [heq] at hroom
      have hbefore : Provided (Room { s with writer := .running after callback,stream })
          (Honest { s with writer := .running after callback,stream }) s.text (.unmask after) := by
        cases after with
        | counted use len => exact ⟨h.1,h.2.1,hroom h.2.2⟩
        | written => exact h
      have hresume := safe_resume _ _ hbefore
      rw [Option.some.inj hstep] at hresume
      exact hresume
  | waiting =>
    rw [hwriter] at h
    simp only [writerStep,hwriter] at hstep
    split_ifs at hstep with htokens
    cases hstep
    refine .inl ⟨rfl,(fun heq => by cases heq),?_⟩
    exact h.resolve_right fun hzero => htokens hzero.1
  | drain =>
    rw [hwriter] at h
    simp only [writerStep,hwriter] at hstep
    split_ifs at hstep
    · cases hstep
      exact .inl ⟨rfl,(fun heq => by cases heq),h⟩
    · cases hstep
      refine .inl ⟨rfl,?_⟩
      rw [Safe]
      exact h
  | maskWrite chunk =>
    rw [hwriter] at h
    simp only [writerStep,hwriter] at hstep
    cases hstep
    exact .inl ⟨rfl,h⟩
  | queue chunk =>
    rw [hwriter] at h
    cases chunk with
    | nil =>
      simp only [writerStep,hwriter] at hstep
      cases hstep
      exact .inl ⟨rfl,h.resolve_left fun hne => hne rfl⟩
    | cons c chunk =>
      simp only [writerStep,hwriter] at hstep
      obtain ⟨outBuf,-,heq⟩ := Option.map_eq_some_iff.mp hstep
      cases heq
      exact .inr ⟨.queued c,[],rfl,fun _ heq => by cases heq⟩
  | checkBuf =>
    rw [hwriter] at h
    simp only [writerStep,hwriter] at hstep
    cases hstep
    refine .inl ⟨rfl,?_⟩
    rw [Safe]
    split_ifs <;> exact h
  | checkEmpty =>
    rw [hwriter] at h
    simp only [writerStep,hwriter] at hstep
    cases hstep
    refine .inl ⟨rfl,?_⟩
    rw [Safe]
    split_ifs <;> exact h
  | kick callback =>
    rw [hwriter] at h
    simp only [writerStep,hwriter] at hstep
    split at hstep <;> cases hstep <;> exact .inl ⟨rfl,h⟩

theorem safe_step (h : s.Safe) (hstep : s.step a = some (observed,s')) : Passes observed s' := by
  cases a with
  | write text =>
    simp only [step] at hstep
    split_ifs at hstep with houtside
    rw [Safe,houtside] at h
    exact h.elim
  | writer => exact safe_writer h hstep
  | complete =>
    simp only [step] at hstep
    split_ifs at hstep with hc
    have hhonest : s.Honest → s.Room ∨ s.stream.tokens = 0 := Or.imp_right And.left
    split at hstep
    · cases hstep
      refine .inl ⟨rfl,h.mono id fun htoken => ?_⟩
      exact (hhonest htoken).imp_right fun hzero => ⟨hzero,fun heq => by cases heq⟩
    · cases hstep
      exact .inl ⟨rfl,h.mono id id⟩
  | fail =>
    simp only [step] at hstep
    split_ifs at hstep
    cases hstep
    exact .inl ⟨rfl,h.mono id id⟩
  | host =>
    cases hhost : s.host with
    | none =>
      simp only [step,hostStep,hhost] at hstep
      cases hstep
    | some callback =>
      simp only [step,hostStep,hhost,Option.map_some] at hstep
      cases hstep
      refine .inl ⟨rfl,h.mono (fun hroom => ?_) fun htoken => htoken.host_step hhost⟩
      exact Nat.lt_of_le_of_lt (length_step callback s.stream) hroom

theorem run_passes {inputs : List Action} {outputs : List (List Observation)} (h : s.Safe)
    (hrun : Transition.run step s inputs = some (outputs,s')) :
    Passes outputs.flatten s' := by
  refine Transition.run_observes_all (I := Passes) ?_ inputs s [] ?_ hrun
  · rintro trace s a observed s' (⟨hnone,hsafe⟩ | ⟨o,rest,hfirst,ho⟩) hstep
    · rcases safe_step hsafe hstep with ⟨hnone',hsafe'⟩ | ⟨o,rest,hfirst,ho⟩
      · exact .inl ⟨by rw [List.filter_append,hnone,hnone',List.append_nil],hsafe'⟩
      · exact .inr ⟨o,rest,by rw [List.filter_append,hnone,hfirst,List.nil_append],ho⟩
    · exact .inr ⟨o,rest ++ observed.filter Observation.ofWriter,by
        rw [List.filter_append,hfirst,List.cons_append],ho⟩
  · exact .inl ⟨rfl,h⟩

/-- With a token of earlier room, the wait for space ends although there is none. -/
theorem interrupts (hwaiting : s.writer = .waiting) (hpending : s.stream.port.pending = false)
    (hfull : s.stream.outBuf.available = circBufSize) (htokens : 0 < s.stream.tokens) :
    ∃ inputs outputs s' text, Transition.run step s inputs = some (outputs,s') ∧
      (outputs.flatten.filter Observation.ofWriter).head? = some (.interrupted text) := by
  have hrun : (Transition.run step s [.writer,.writer,.writer,.writer]).map Prod.fst =
      some [[],[],[],[.interrupted s.text]] := by
    simp [Transition.run,step,writerStep,hwaiting,Nat.pos_iff_ne_zero.mp htokens,Port.setupIrq,
      hpending,hfull,resume]
  obtain ⟨⟨outputs,s'⟩,hreached,houtputs⟩ := Option.map_eq_some_iff.mp hrun
  refine ⟨_,outputs,s',s.text,hreached,?_⟩
  rw [show outputs = [[],[],[],[.interrupted s.text]] from houtputs]
  rfl

/-- Nobody aborts `write`, and yet the wait for space can end as an interruption: exactly when the
buffer is full, and a token waits or is about to be posted that tells of earlier room. -/
theorem interrupted_iff {maxOutSize : Nat} {outBuf : List Char}
    {hsize : outBuf.length = circBufSize + 1}
    (h : Transition.Reaches step (start maxOutSize outBuf hsize) s)
    (hwaiting : s.writer = .waiting) :
    (∃ inputs outputs s' text, Transition.run step s inputs = some (outputs,s') ∧
      (outputs.flatten.filter Observation.ofWriter).head? = some (.interrupted text)) ↔
      s.stream.outBuf.available = circBufSize ∧
        (0 < s.stream.tokens ∨ s.host = some .release) := by
  have hi := inv_of_reaches h
  constructor
  · rintro ⟨inputs,outputs,s',text,hrun,hfirst⟩
    by_contra hnot
    have hlt := s.stream.outBuf.available_lt
    have hsafe : s.Safe := by
      rw [Safe,hwaiting]
      change s.Room ∨ _
      rw [Room,MtxCircBuffer.length_contents]
      by_cases hfull : s.stream.outBuf.available = circBufSize
      · have hnone := not_or.mp fun hor => hnot ⟨hfull,hor⟩
        exact .inr ⟨Nat.eq_zero_of_not_pos hnone.1,hnone.2⟩
      · exact .inl (by omega)
    rcases run_passes hsafe hrun with ⟨hnone,-⟩ | ⟨o,rest,hcons,ho⟩
    · rw [hnone] at hfirst
      cases hfirst
    · rw [hcons] at hfirst
      exact ho text (Option.some.inj hfirst)
  · rintro ⟨hfull,htoken⟩
    have hpending : s.stream.port.pending = false := by
      cases hp : s.stream.port.pending with
      | false => rfl
      | true =>
        have hmasked := hi.pending hp
        rw [hwaiting] at hmasked
        cases hmasked
    rcases htoken with htokens | hrelease
    · exact interrupts hwaiting hpending hfull htokens
    · have hstep : s.step .host = some ([],{ s with
          host := none,stream.tokens := s.stream.tokens + 1 }) := by
        simp only [step,hostStep,hrelease,Option.map_some,Callback.step]
      obtain ⟨inputs,outputs,s',text,hrun,hfirst⟩ := interrupts (s := { s with
        host := none,stream.tokens := s.stream.tokens + 1 }) hwaiting hpending hfull
        (Nat.succ_pos _)
      exact ⟨.host :: inputs,[] :: outputs,s',text,
        (Transition.run_cons_eq_some_iff hstep).mpr ⟨outputs,rfl,hrun⟩,hfirst⟩

/-- The host makes room between the two calls of `space`, and `write` uses it at once. -/
theorem interrupted_iff_early :
    ∃ s, Transition.Reaches step
        (start 1 (List.replicate (circBufSize + 1) nul) List.length_replicate) s ∧
      ∃ inputs outputs s' text, Transition.run step s inputs = some (outputs,s') ∧
        (outputs.flatten.filter Observation.ofWriter).head? = some (.interrupted text) := by
  have hrun : (Transition.run step
      (start 1 (List.replicate (circBufSize + 1) nul) List.length_replicate)
      ([.write (List.replicate 130 'x')] ++ List.replicate 154 .writer ++ [.complete] ++
        List.replicate 10 .host ++ List.replicate 13 .writer)).map (fun reached =>
          (reached.2.writer,reached.2.stream.outBuf.available,reached.2.stream.tokens)) =
      some (.waiting,127,1) := by decide +kernel
  obtain ⟨⟨outputs,s⟩,hreached,heq⟩ := Option.map_eq_some_iff.mp hrun
  simp only [Prod.mk.injEq] at heq
  obtain ⟨hwaiting,havailable,htokens⟩ := heq
  refine ⟨s,⟨_,outputs,hreached⟩,(interrupted_iff ⟨_,outputs,hreached⟩ hwaiting).mpr ?_⟩
  exact ⟨havailable,.inl (by rw [htokens]; decide)⟩

end State

end Pyrn.Modem.Tx
