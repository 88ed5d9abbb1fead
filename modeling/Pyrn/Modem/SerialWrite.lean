import Pyrn.Framework.Run
import Pyrn.Modem.MtxCircBuffer
import Pyrn.Modem.ReadLine

/-!
# Writing to the serial port

`USBSerialStream::write` puts characters into a buffer, out of which the callback `writeable` fills
the packets of the port: on the thread of the host behind a transfer, or on the writing thread, when
nothing is sent or when it lets callbacks in again. The steps of both threads come in any order.
-/

namespace Pyrn.Modem.Tx

/-- `CIRCBUF_SIZE`; the buffer has one cell more. -/
def circBufSize : Nat := 127

/-- The sending half of `WANDongleSerialPort`. -/
structure Port where
  /-- `max_out_size`. -/
  maxOutSize : Nat
  /-- `lock_tx`. -/
  locked : Bool
  /-- Whether the host carries out a transfer. -/
  inFlight : Bool
  /-- What is in `buf_out`. -/
  bufOut : List Char
  /-- `cb_tx_en`. -/
  enabled : Bool
  /-- `cb_tx_pending`. -/
  pending : Bool
  deriving DecidableEq, Repr

namespace Port

def writeable (p : Port) : Nat := if p.locked then 0 else p.maxOutSize - p.bufOut.length

/-- `putc` drops a character that does not fit, or comes during a transfer. -/
def putc (c : Char) (p : Port) : Port :=
  if p.locked then p
  else if p.bufOut.length < p.maxOutSize then { p with bufOut := p.bufOut ++ [c] }
  else p

/-- `writePacket` starts a transfer, unless one is said to go on. -/
def writePacket (p : Port) : Port :=
  if p.locked then p else { p with locked := true,inFlight := true }

/-- `setupIrq`; whether the callback is called for a transfer that ended meanwhile. -/
def setupIrq (en : Bool) (p : Port) : Bool × Port :=
  if en && p.pending then (true,{ p with enabled := en,pending := false })
  else (false,{ p with enabled := en })

/-- `txHandler` behind a transfer; whether the callback is called. -/
def txHandler (p : Port) : Bool × Port :=
  if p.enabled then (true,{ p with bufOut := [],locked := false,inFlight := false })
  else (false,{ p with bufOut := [],locked := false,inFlight := false,pending := true })

/-- A transfer is not accepted or ends with an error. `lock_tx` stays set, so that the `writePacket`
of the error path does nothing. -/
def fail (p : Port) : Port := { p with inFlight := false }

end Port

/-- What the threads share. -/
structure Stream where
  port : Port
  outBuf : MtxCircBuffer Char (circBufSize + 1)
  /-- The count of `m_spaceSphre`. -/
  tokens : Nat
  /-- `m_serialTxFifoEmpty`. -/
  fifoEmpty : Bool
  deriving DecidableEq

/-- Where a thread is in `USBSerialStream::writeable`. -/
inductive Callback
  | isEmpty
  /-- At the assignments to `m_serialTxFifoEmpty`. -/
  | setEmpty
  | setBusy
  /-- At the two conditions of the loop. -/
  | testPort
  | testBuf
  | dequeue
  | put (c : Char)
  | packet
  | isFull
  | release
  deriving DecidableEq, Repr

namespace Callback

/-- A step of the callback; the last one leaves it. -/
def step (s : Stream) : Callback → Option Callback × Stream
  | isEmpty => (if s.outBuf.isEmpty then some setEmpty else some setBusy,s)
  | setEmpty => (some isFull,{ s with fifoEmpty := true })
  | setBusy => (some testPort,{ s with fifoEmpty := false })
  | testPort => (if s.port.writeable ≠ 0 then some testBuf else some packet,s)
  | testBuf => (if s.outBuf.isEmpty then some packet else some dequeue,s)
  | dequeue =>
      match s.outBuf.dequeue with
      -- the local variable stays as it was
      | none => (some (put nul),s)
      | some (c,outBuf) => (some (put c),{ s with outBuf })
  | put c => (some testPort,{ s with port := s.port.putc c })
  | packet => (some isFull,{ s with port := s.port.writePacket })
  | isFull => (if s.outBuf.isFull then none else some release,s)
  | release => (none,{ s with tokens := s.tokens + 1 })

/-- Whether the packet of the port is this callback's. -/
def drains : Callback → Bool
  | isFull => false
  | release => false
  | _ => true

/-- What the callback has taken from the buffer and not put into the port. -/
def held : Callback → List Char
  | put c => [c]
  | _ => []

end Callback

/-- Which call of `space` it is: the two of `waitSpace`, and the one behind it in `write`. -/
inductive Use
  | testing
  | retesting
  | measuring
  deriving DecidableEq, Repr

/-- What the writing thread goes on with when it has let callbacks in again. -/
inductive After
  | counted (use : Use) (len : Nat)
  | written
  deriving DecidableEq, Repr

/-- Where the writing thread is. -/
inductive Writer
  | outside
  /-- In `space`. -/
  | mask (use : Use)
  | count (use : Use)
  | unmask (after : After)
  /-- In the callback, for a transfer that ended while callbacks were kept out. -/
  | running (after : After) (callback : Callback)
  /-- At `m_spaceSphre.wait(timeout)`. -/
  | waiting
  /-- At `while( m_spaceSphre.wait(0) > 0 )`. -/
  | drain
  /-- In `write`, with the characters that are put into the buffer. -/
  | maskWrite (chunk : List Char)
  | queue (chunk : List Char)
  /-- At `m_outBuf.available() && m_serialTxFifoEmpty`. -/
  | checkBuf
  | checkEmpty
  /-- In the callback, because nothing was sent. -/
  | kick (callback : Callback)
  deriving DecidableEq, Repr

namespace Writer

def callback? : Writer → Option Callback
  | running _ callback => some callback
  | kick callback => some callback
  | _ => none

/-- The callback that follows a transfer. -/
def answer? : Writer → Option Callback
  | running _ callback => some callback
  | _ => none

/-- Whether the writing thread keeps callbacks out. -/
def masked : Writer → Bool
  | count _ => true
  | unmask _ => true
  | queue _ => true
  | checkBuf => true
  | checkEmpty => true
  | kick _ => true
  | _ => false

end Writer

structure State where
  stream : Stream
  /-- Where the thread of the host is in the callback. -/
  host : Option Callback
  writer : Writer
  /-- What is left of the text of `write`, behind the characters that are being put. -/
  text : List Char
  deriving DecidableEq

inductive Action
  /-- `write` is called, to wait for ever if it has to. -/
  | write (text : List Char)
  | writer
  /-- The host has sent the packet, or fails to. -/
  | complete
  | fail
  /-- A step of the callback on the thread of the host. -/
  | host
  deriving DecidableEq, Repr

inductive Observation
  | queued (c : Char)
  /-- `write` returns `OK`, or `NET_INTERRUPTED` with something left. -/
  | done
  | interrupted (text : List Char)
  | sent (packet : List Char)
  deriving DecidableEq, Repr

namespace State

/-- The writing thread behind `setupWriteableISR(true)`. -/
def resume (s : State) : After → List Observation × State
  | .counted .testing len => ([],{ s with writer := if len = 0 then .waiting else .drain })
  | .counted .retesting len =>
      if len = 0 then ([.interrupted s.text],{ s with writer := .outside })
      else ([],{ s with writer := .drain })
  | .counted .measuring len => ([],
      { s with
        writer := .maskWrite (s.text.take (min len s.text.length))
        text := s.text.drop (min len s.text.length) })
  | .written =>
      if s.text = [] then ([.done],{ s with writer := .outside })
      else ([],{ s with writer := .mask .testing })

/-- `write`; it is `none` where the thread waits, or is not there. -/
def writerStep (s : State) : Option (List Observation × State) :=
  match s.writer with
  | .outside => none
  | .mask use => some ([],
      { s with writer := .count use,stream.port := (s.stream.port.setupIrq false).2 })
  | .count use => some ([],
      { s with writer := .unmask (.counted use (circBufSize - s.stream.outBuf.available)) })
  | .unmask after =>
      match s.stream.port.setupIrq true with
      | (true,port) => some ([],{ s with writer := .running after .isEmpty,stream.port := port })
      | (false,port) => some (resume { s with stream.port := port } after)
  | .running after callback =>
      match callback.step s.stream with
      | (some callback,stream) => some ([],{ s with writer := .running after callback,stream })
      | (none,stream) => some (resume { s with stream } after)
  | .waiting =>
      if s.stream.tokens = 0 then none
      else some ([],{ s with writer := .mask .retesting,stream.tokens := s.stream.tokens - 1 })
  | .drain =>
      if s.stream.tokens = 0 then some ([],{ s with writer := .mask .measuring })
      else some ([],{ s with stream.tokens := s.stream.tokens - 1 })
  | .maskWrite chunk => some ([],
      { s with writer := .queue chunk,stream.port := (s.stream.port.setupIrq false).2 })
  | .queue [] => some ([],{ s with writer := .checkBuf })
  | .queue (c :: chunk) => (s.stream.outBuf.queue c).map fun outBuf =>
      ([.queued c],{ s with writer := .queue chunk,stream.outBuf := outBuf })
  | .checkBuf => some ([],
      { s with writer := if s.stream.outBuf.available ≠ 0 then .checkEmpty else .unmask .written })
  | .checkEmpty => some ([],
      { s with writer := if s.stream.fifoEmpty then .kick .isEmpty else .unmask .written })
  | .kick callback =>
      match callback.step s.stream with
      | (some callback,stream) => some ([],{ s with writer := .kick callback,stream })
      | (none,stream) => some ([],{ s with writer := .unmask .written,stream })

def hostStep (s : State) : Option (List Observation × State) :=
  s.host.map fun callback =>
    ([],{ s with host := (callback.step s.stream).1,stream := (callback.step s.stream).2 })

def step (s : State) : Action → Option (List Observation × State)
  | .write text =>
      if s.writer = .outside then some ([],{ s with writer := .mask .testing,text }) else none
  | .writer => s.writerStep
  | .complete =>
      if s.stream.port.inFlight = true ∧ s.host = none then
        match s.stream.port.txHandler with
        | (true,port) => some ([.sent s.stream.port.bufOut],
            { s with host := some .isEmpty,stream.port := port })
        | (false,port) => some ([.sent s.stream.port.bufOut],{ s with stream.port := port })
      else none
  | .fail =>
      if s.stream.port.inFlight = true then some ([],{ s with stream.port := s.stream.port.fail })
      else none
  | .host => s.hostStep

/-- The stream on a connected port. -/
def start (maxOutSize : Nat) (outBuf : List Char) (hsize : outBuf.length = circBufSize + 1) :
    State :=
  ⟨⟨⟨maxOutSize,false,false,[],true,false⟩,.empty outBuf (by decide) hsize,0,true⟩,none,.outside,[]⟩

/-- The callbacks that run, on either thread. -/
def callbacks (s : State) : List Callback := s.host.toList ++ s.writer.callback?.toList

/-- What has been put into the buffer and is not known to be sent. -/
def unsent (s : State) : List Char :=
  s.stream.port.bufOut ++ s.callbacks.flatMap Callback.held ++ s.stream.outBuf.contents

end State

/-- Whether the callback has not said yet that something is sent. -/
def Callback.begins : Callback → Bool
  | isEmpty => true
  | setEmpty => true
  | setBusy => true
  | _ => false

/-- Whether the callback may have put something into the port. -/
def Callback.fills : Callback → Bool
  | testPort => true
  | testBuf => true
  | dequeue => true
  | put _ => true
  | packet => true
  | _ => false

/-- Whether the callback goes on to take a character, if it has not put one into the port. -/
def Callback.looks : Callback → Bool
  | setBusy => true
  | testPort => true
  | testBuf => true
  | _ => false

/-- The packet of the port has at most one owner, and one exactly when the port is not idle: the
transfer that sends it, the callback that is still to be called, or a callback that fills it. -/
structure Owned (s : Stream) (callbacks : List Callback) : Prop where
  one : s.port.locked.toNat + s.port.pending.toNat + callbacks.countP Callback.drains ≤ 1
  busy : s.fifoEmpty = false →
    s.port.locked.toNat + s.port.pending.toNat + callbacks.countP Callback.drains = 1
  idle : s.fifoEmpty = true → s.port.locked = false ∧ s.port.pending = false ∧
    ∀ callback ∈ callbacks, callback.drains = true → callback.begins = true
  flight : s.port.inFlight = true → s.port.locked = true
  room : ∀ callback ∈ callbacks, callback = .testBuf ∨ callback = .dequeue ∨
    (∃ c, callback = .put c) → s.port.bufOut.length < s.port.maxOutSize
  some : .dequeue ∈ callbacks → s.outBuf.contents ≠ []
  fresh : s.port.locked = false → (∀ callback ∈ callbacks, callback.fills = false) →
    s.port.bufOut = []
  more : ∀ callback ∈ callbacks, callback.looks = true → s.port.bufOut = [] →
    s.outBuf.contents ≠ []

namespace Owned

variable {callback : Callback} {rest : List Callback} {s s' : Stream}

theorem perm {callbacks callbacks' : List Callback} (h : Owned s callbacks)
    (hperm : callbacks.Perm callbacks') : Owned s callbacks' := by
  have hcount := hperm.countP_eq Callback.drains
  refine ⟨hcount ▸ h.one,fun hbusy => hcount ▸ h.busy hbusy,fun hidle => ?_,h.flight,?_,?_,?_,?_⟩
  · obtain ⟨hlocked,hpending,hbegins⟩ := h.idle hidle
    exact ⟨hlocked,hpending,fun callback hmem => hbegins callback (hperm.mem_iff.mpr hmem)⟩
  · exact fun callback hmem => h.room callback (hperm.mem_iff.mpr hmem)
  · exact fun hmem => h.some (hperm.mem_iff.mpr hmem)
  · exact fun hlocked hfills => h.fresh hlocked fun callback hmem =>
      hfills callback (hperm.mem_iff.mp hmem)
  · exact fun callback hmem => h.more callback (hperm.mem_iff.mpr hmem)

/-- The others have nothing to do with the packet of a callback. -/
theorem alone (h : Owned s (callback :: rest)) (hdrains : callback.drains = true) :
    s.port.locked = false ∧ s.port.pending = false ∧ ∀ other ∈ rest, other.drains = false := by
  have hone := h.one
  rw [List.countP_cons_of_pos hdrains] at hone
  refine ⟨Bool.toNat_eq_zero.mp (by omega),Bool.toNat_eq_zero.mp (by omega),fun other hmem => ?_⟩
  exact Bool.eq_false_iff.mpr (List.countP_eq_zero.mp (by omega) other hmem)

theorem held_of_drains (h : callback.drains = false) : callback.held = [] := by
  cases callback <;> first | rfl | cases h

theorem fills_of_drains (h : callback.drains = false) : callback.fills = false := by
  cases callback <;> first | rfl | cases h

theorem looks_of_drains (h : callback.drains = false) : callback.looks = false := by
  cases callback <;> first | rfl | cases h

theorem held_rest (h : ∀ other ∈ rest, other.drains = false) :
    rest.flatMap Callback.held = [] := by
  rw [List.flatMap_eq_nil_iff]
  exact fun other hmem => held_of_drains (h other hmem)

/-- A callback that goes on with the packet. -/
theorem of_callback {callback' : Callback} (h : Owned s (callback :: rest))
    (hdrains : callback.drains = true) (hdrains' : callback'.drains = true)
    (hlocked : s'.port.locked = false) (hpending : s'.port.pending = false)
    (hflight : s'.port.inFlight = s.port.inFlight)
    (hbegins : s'.fifoEmpty = true → callback'.begins = true)
    (hroom : callback' = .testBuf ∨ callback' = .dequeue ∨ (∃ c, callback' = .put c) →
      s'.port.bufOut.length < s'.port.maxOutSize)
    (hsome : callback' = .dequeue → s'.outBuf.contents ≠ [])
    (hfresh : callback'.fills = false → s'.port.bufOut = [])
    (hmore : callback'.looks = true → s'.port.bufOut = [] → s'.outBuf.contents ≠ []) :
    Owned s' (callback' :: rest) := by
  obtain ⟨hlocked₀,-,hrest⟩ := h.alone hdrains
  have hcount : (callback' :: rest).countP Callback.drains = 1 := by
    rw [List.countP_cons_of_pos hdrains',List.countP_eq_zero.mpr]
    intro other hmem
    rw [hrest other hmem]
    exact Bool.false_ne_true
  have hsum : s'.port.locked.toNat + s'.port.pending.toNat +
      (callback' :: rest).countP Callback.drains = 1 := by
    rw [hlocked,hpending,hcount]
    rfl
  refine ⟨Nat.le_of_eq hsum,fun _ => hsum,fun hidle => ⟨hlocked,hpending,?_⟩,?_,?_,?_,
    fun _ hfills => hfresh (hfills _ List.mem_cons_self),?_⟩
  · intro other hmem hother
    rcases List.mem_cons.mp hmem with rfl | hmem
    · exact hbegins hidle
    · cases (hrest other hmem).symm.trans hother
  · intro hfly
    cases hlocked₀.symm.trans (h.flight (hflight ▸ hfly))
  · intro other hmem hor
    rcases List.mem_cons.mp hmem with rfl | hmem
    · exact hroom hor
    · have hother := hrest other hmem
      rcases hor with rfl | rfl | ⟨c,rfl⟩ <;> cases hother
  · intro hmem
    rcases List.mem_cons.mp hmem with heq | hmem
    · exact hsome heq.symm
    · cases hrest _ hmem
  · intro other hmem hlooks
    rcases List.mem_cons.mp hmem with rfl | hmem
    · exact hmore hlooks
    · cases (looks_of_drains (hrest other hmem)).symm.trans hlooks

/-- A callback that has no more to do with the packet leaves the others as they are. -/
theorem of_rest (s' : Stream) (callback' : Option Callback)
    (hrest : ∀ other ∈ rest, other.drains = false)
    (hcallback : ∀ other ∈ callback', other.drains = false)
    (hone : s'.port.locked.toNat + s'.port.pending.toNat ≤ 1)
    (hbusy : s'.fifoEmpty = false → s'.port.locked.toNat + s'.port.pending.toNat = 1)
    (hidle : s'.fifoEmpty = true → s'.port.locked = false ∧ s'.port.pending = false)
    (hflight : s'.port.inFlight = true → s'.port.locked = true)
    (hfresh : s'.port.locked = false → s'.port.bufOut = []) :
    Owned s' (callback'.toList ++ rest) := by
  have hall : ∀ other ∈ callback'.toList ++ rest, other.drains = false := by
    intro other hmem
    rcases List.mem_append.mp hmem with hmem | hmem
    · exact hcallback other (Option.mem_toList.mp hmem)
    · exact hrest other hmem
  have hcount : (callback'.toList ++ rest).countP Callback.drains = 0 := by
    rw [List.countP_eq_zero]
    exact fun other hmem => Bool.eq_false_iff.mp (hall other hmem)
  refine ⟨hcount ▸ hone,fun hb => hcount ▸ hbusy hb,fun hi => ⟨(hidle hi).1,(hidle hi).2,?_⟩,
    hflight,?_,?_,fun hlocked _ => hfresh hlocked,?_⟩
  · intro other hmem hother
    cases (hall other hmem).symm.trans hother
  · intro other hmem hor
    have hother := hall other hmem
    rcases hor with rfl | rfl | ⟨c,rfl⟩ <;> cases hother
  · exact fun hmem => by cases hall _ hmem
  · exact fun other hmem hlooks =>
      by cases (looks_of_drains (hall other hmem)).symm.trans hlooks

theorem tail (h : Owned s (callback :: rest)) (hdrains : callback.drains = false) :
    Owned s rest := by
  have hone := h.one
  have hbusy := h.busy
  rw [List.countP_cons_of_neg (by rw [hdrains]; exact Bool.false_ne_true)] at hone hbusy
  refine ⟨hone,hbusy,fun hidle => ?_,h.flight,
    fun other hmem => h.room other (List.mem_cons_of_mem _ hmem),
    fun hmem => h.some (List.mem_cons_of_mem _ hmem),
    fun hlocked hfills =>
      h.fresh hlocked (List.forall_mem_cons.mpr ⟨fills_of_drains hdrains,hfills⟩),
    fun other hmem => h.more other (List.mem_cons_of_mem _ hmem)⟩
  obtain ⟨hlocked,hpending,hbegins⟩ := h.idle hidle
  exact ⟨hlocked,hpending,fun other hmem => hbegins other (List.mem_cons_of_mem _ hmem)⟩

theorem cons (h : Owned s rest) (hdrains : callback.drains = false) :
    Owned s (callback :: rest) := by
  have hcount : (callback :: rest).countP Callback.drains = rest.countP Callback.drains :=
    List.countP_cons_of_neg (by rw [hdrains]; exact Bool.false_ne_true)
  refine ⟨hcount ▸ h.one,fun hb => hcount ▸ h.busy hb,fun hidle => ?_,h.flight,?_,?_,
    fun hlocked hfills => h.fresh hlocked (List.forall_mem_cons.mp hfills).2,?_⟩
  · obtain ⟨hlocked,hpending,hbegins⟩ := h.idle hidle
    refine ⟨hlocked,hpending,fun other hmem hother => ?_⟩
    rcases List.mem_cons.mp hmem with rfl | hmem
    · cases hdrains.symm.trans hother
    · exact hbegins other hmem hother
  · intro other hmem hor
    rcases List.mem_cons.mp hmem with rfl | hmem
    · rcases hor with rfl | rfl | ⟨c,rfl⟩ <;> cases hdrains
    · exact h.room other hmem hor
  · intro hmem
    rcases List.mem_cons.mp hmem with rfl | hmem
    · cases hdrains
    · exact h.some hmem
  · intro other hmem hlooks
    rcases List.mem_cons.mp hmem with rfl | hmem
    · cases (looks_of_drains hdrains).symm.trans hlooks
    · exact h.more other hmem hlooks

theorem fresh_of_alone (h : Owned s (callback :: rest)) (hdrains : callback.drains = true)
    (hfills : callback.fills = false) : s.port.bufOut = [] := by
  obtain ⟨hlocked,-,hrest⟩ := h.alone hdrains
  refine h.fresh hlocked (List.forall_mem_cons.mpr ⟨hfills,fun other hmem => ?_⟩)
  exact fills_of_drains (hrest other hmem)

/-- A step of a callback hands on what is to be sent as it is. -/
theorem step (h : Owned s (callback :: rest)) :
    Owned (callback.step s).2 ((callback.step s).1.toList ++ rest) ∧
      (callback.step s).2.port.pending = s.port.pending ∧
      (callback.step s).2.port.enabled = s.port.enabled ∧
      (callback.step s).2.port.bufOut ++
          ((callback.step s).1.toList ++ rest).flatMap Callback.held ++
            (callback.step s).2.outBuf.contents =
        s.port.bufOut ++ (callback :: rest).flatMap Callback.held ++ s.outBuf.contents := by
  cases callback with
  | isEmpty =>
    obtain ⟨hlocked,hpending,-⟩ := h.alone rfl
    have hfresh := h.fresh_of_alone rfl rfl
    rw [Callback.step]
    split_ifs with hempty
    · exact ⟨h.of_callback rfl rfl hlocked hpending rfl (fun _ => rfl) (by simp) (by simp)
        (fun _ => hfresh) (by simp [Callback.looks]),rfl,rfl,rfl⟩
    · exact ⟨h.of_callback rfl rfl hlocked hpending rfl (fun _ => rfl) (by simp) (by simp)
        (fun _ => hfresh) (fun _ _ => mt MtxCircBuffer.isEmpty_iff.mpr hempty),rfl,rfl,rfl⟩
  | setEmpty =>
    obtain ⟨hlocked,hpending,hrest⟩ := h.alone rfl
    refine ⟨of_rest _ _ hrest (by simp [Callback.step,Callback.drains]) ?_ (fun hb => by cases hb)
      (fun _ => ⟨hlocked,hpending⟩) h.flight (fun _ => h.fresh_of_alone rfl rfl),rfl,rfl,rfl⟩
    simp only [Callback.step,hlocked,hpending]
    decide
  | setBusy =>
    obtain ⟨hlocked,hpending,-⟩ := h.alone rfl
    exact ⟨h.of_callback rfl rfl hlocked hpending rfl (fun hidle => by cases hidle) (by simp)
      (by simp) (fun hfills => by cases hfills) (fun _ => h.more _ List.mem_cons_self rfl),
      rfl,rfl,rfl⟩
  | testPort =>
    obtain ⟨hlocked,hpending,-⟩ := h.alone rfl
    have hbusy : s.fifoEmpty = true → False := fun hidle =>
      by cases (h.idle hidle).2.2 _ List.mem_cons_self rfl
    rw [Callback.step]
    split_ifs with hwriteable
    · refine ⟨h.of_callback rfl rfl hlocked hpending rfl (fun hidle => (hbusy hidle).elim)
        (fun _ => ?_) (by simp) (fun hfills => by cases hfills)
        (fun _ => h.more _ List.mem_cons_self rfl),rfl,rfl,rfl⟩
      rw [Port.writeable,if_neg (by rw [hlocked]; exact Bool.false_ne_true)] at hwriteable
      exact Nat.lt_of_sub_pos (Nat.pos_of_ne_zero hwriteable)
    · exact ⟨h.of_callback rfl rfl hlocked hpending rfl (fun hidle => (hbusy hidle).elim)
        (by simp) (by simp) (fun hfills => by cases hfills) (fun hlooks => by cases hlooks),
        rfl,rfl,rfl⟩
  | testBuf =>
    obtain ⟨hlocked,hpending,-⟩ := h.alone rfl
    have hbusy : s.fifoEmpty = true → False := fun hidle =>
      by cases (h.idle hidle).2.2 _ List.mem_cons_self rfl
    have hroom := h.room _ List.mem_cons_self (.inl rfl)
    rw [Callback.step]
    split_ifs with hempty
    · exact ⟨h.of_callback rfl rfl hlocked hpending rfl (fun hidle => (hbusy hidle).elim)
        (by simp) (by simp) (fun hfills => by cases hfills) (fun hlooks => by cases hlooks),
        rfl,rfl,rfl⟩
    · exact ⟨h.of_callback rfl rfl hlocked hpending rfl (fun hidle => (hbusy hidle).elim)
        (fun _ => hroom) (fun _ => mt MtxCircBuffer.isEmpty_iff.mpr hempty)
        (fun hfills => by cases hfills) (fun hlooks => by cases hlooks),rfl,rfl,rfl⟩
  | dequeue =>
    obtain ⟨hlocked,hpending,hrest⟩ := h.alone rfl
    have hbusy : s.fifoEmpty = true → False := fun hidle =>
      by cases (h.idle hidle).2.2 _ List.mem_cons_self rfl
    have hroom := h.room _ List.mem_cons_self (.inr (.inl rfl))
    have hsome := h.some List.mem_cons_self
    rw [Callback.step]
    cases hdequeue : s.outBuf.dequeue with
    | none => exact absurd (MtxCircBuffer.dequeue_eq_none_iff.mp hdequeue) hsome
    | some taken =>
      obtain ⟨c,outBuf⟩ := taken
      refine ⟨h.of_callback rfl rfl hlocked hpending rfl (fun hidle => (hbusy hidle).elim)
        (fun _ => hroom) (by simp) (fun hfills => by cases hfills) (fun hlooks => by cases hlooks),
        rfl,rfl,?_⟩
      simp [Callback.held,MtxCircBuffer.contents_dequeue hdequeue,held_rest hrest]
  | put c =>
    obtain ⟨hlocked,hpending,hrest⟩ := h.alone rfl
    have hbusy : s.fifoEmpty = true → False := fun hidle =>
      by cases (h.idle hidle).2.2 _ List.mem_cons_self rfl
    have hroom := h.room _ List.mem_cons_self (.inr (.inr ⟨c,rfl⟩))
    have hputc : s.port.putc c = { s.port with bufOut := s.port.bufOut ++ [c] } := by
      rw [Port.putc,if_neg (by rw [hlocked]; exact Bool.false_ne_true),if_pos hroom]
    rw [Callback.step,hputc]
    refine ⟨h.of_callback rfl rfl hlocked hpending rfl (fun hidle => (hbusy hidle).elim) (by simp)
      (by simp) (fun hfills => by cases hfills) (fun _ => by simp),rfl,rfl,?_⟩
    simp [Callback.held,held_rest hrest]
  | packet =>
    obtain ⟨hlocked,hpending,hrest⟩ := h.alone rfl
    have hbusy : s.fifoEmpty = true → False := fun hidle =>
      by cases (h.idle hidle).2.2 _ List.mem_cons_self rfl
    have hwrite : s.port.writePacket = { s.port with locked := true,inFlight := true } :=
      if_neg (by rw [hlocked]; exact Bool.false_ne_true)
    rw [Callback.step,hwrite]
    refine ⟨of_rest _ _ hrest (by simp [Callback.drains]) ?_ (fun _ => ?_)
      (fun hidle => (hbusy hidle).elim) (fun _ => rfl) (fun hfree => by cases hfree),rfl,rfl,rfl⟩
    · simp only [hpending]
      decide
    · simp only [hpending]
      decide
  | isFull =>
    have htail := h.tail rfl
    rw [Callback.step]
    split_ifs
    · exact ⟨htail,rfl,rfl,rfl⟩
    · exact ⟨htail.cons rfl,rfl,rfl,rfl⟩
  | release =>
    have htail := h.tail rfl
    exact ⟨⟨htail.one,htail.busy,htail.idle,htail.flight,htail.room,htail.some,htail.fresh,
      htail.more⟩,rfl,rfl,rfl⟩

theorem held_comm (own : Option Callback) (rest : List Callback)
    (h : Owned s (own.toList ++ rest)) :
    (own.toList ++ rest).flatMap Callback.held = (rest ++ own.toList).flatMap Callback.held := by
  cases own with
  | none => rw [Option.toList_none,List.nil_append,List.append_nil]
  | some callback =>
    cases hdrains : callback.drains with
    | true =>
      have hnil : rest.flatMap Callback.held = [] := held_rest (h.alone hdrains).2.2
      rw [List.flatMap_append,List.flatMap_append,hnil,List.append_nil,List.nil_append]
    | false => simp [held_of_drains hdrains]

/-- The others have nothing to do with the packet of a transfer, or with one that is to be
followed by a callback. -/
theorem of_busy (h : Owned s rest) (hbusy : s.port.locked = true ∨ s.port.pending = true) :
    s.port.locked.toNat + s.port.pending.toNat = 1 ∧ s.fifoEmpty = false ∧
      ∀ other ∈ rest, other.drains = false := by
  have hone := h.one
  have hsum : 1 ≤ s.port.locked.toNat + s.port.pending.toNat := by
    rcases hbusy with htrue | htrue <;> rw [htrue,Bool.toNat_true] <;> omega
  refine ⟨by omega,?_,fun other hmem => ?_⟩
  · cases hidle : s.fifoEmpty with
    | false => rfl
    | true =>
      obtain ⟨hlocked,hpending,-⟩ := h.idle hidle
      rw [hlocked,hpending] at hsum
      cases hsum
  · exact Bool.eq_false_iff.mpr (List.countP_eq_zero.mp (by omega) other hmem)

/-- A callback is called. -/
theorem call (hrest : ∀ other ∈ rest, other.drains = false) (hlocked : s.port.locked = false)
    (hpending : s.port.pending = false) (hflight : s.port.inFlight = false)
    (hfresh : s.port.bufOut = []) : Owned s (.isEmpty :: rest) := by
  have hcount : (Callback.isEmpty :: rest).countP Callback.drains = 1 := by
    rw [List.countP_cons_of_pos rfl,List.countP_eq_zero.mpr]
    exact fun other hmem => Bool.eq_false_iff.mp (hrest other hmem)
  have hsum : s.port.locked.toNat + s.port.pending.toNat +
      (Callback.isEmpty :: rest).countP Callback.drains = 1 := by
    rw [hlocked,hpending,hcount]
    rfl
  refine ⟨Nat.le_of_eq hsum,fun _ => hsum,fun _ => ⟨hlocked,hpending,?_⟩,
    (fun hfly => by cases hflight.symm.trans hfly),?_,?_,fun _ _ => hfresh,?_⟩
  · intro other hmem hother
    rcases List.mem_cons.mp hmem with rfl | hmem
    · rfl
    · cases (hrest other hmem).symm.trans hother
  · intro other hmem hor
    rcases List.mem_cons.mp hmem with rfl | hmem
    · rcases hor with hor | hor | ⟨c,hor⟩ <;> cases hor
    · have hother := hrest other hmem
      rcases hor with rfl | rfl | ⟨c,rfl⟩ <;> cases hother
  · intro hmem
    rcases List.mem_cons.mp hmem with heq | hmem
    · cases heq
    · cases hrest _ hmem
  · intro other hmem hlooks
    rcases List.mem_cons.mp hmem with rfl | hmem
    · cases hlooks
    · cases (looks_of_drains (hrest other hmem)).symm.trans hlooks

end Owned

def Observation.queuedText : Observation → List Char
  | queued c => [c]
  | _ => []

def Observation.sentText : Observation → List Char
  | sent packet => packet
  | _ => []

namespace State

variable {s s' : State} {observed : List Observation} {a : Action}

structure Inv (s : State) : Prop where
  owned : Owned s.stream s.callbacks
  enabled : s.stream.port.enabled = !s.writer.masked
  pending : s.stream.port.pending = true → s.writer.masked = true
  answers : s.stream.fifoEmpty = true → ∀ callback ∈ s.host.toList ++ s.writer.answer?.toList,
    callback.drains = false

/-- What a step takes in and what it sends. -/
structure Carries (s : State) (observed : List Observation) (s' : State) : Prop where
  inv : Inv s'
  text : s.unsent ++ observed.flatMap Observation.queuedText =
    observed.flatMap Observation.sentText ++ s'.unsent

theorem inv_start (maxOutSize : Nat) (outBuf : List Char)
    (hsize : outBuf.length = circBufSize + 1) : Inv (start maxOutSize outBuf hsize) :=
  ⟨⟨Nat.zero_le _,(fun h => by cases h),fun _ => ⟨rfl,rfl,fun _ h => by cases h⟩,
    (fun h => by cases h),(fun _ h => by cases h),(fun h => by cases h),(fun _ _ => rfl),
    fun _ h => by cases h⟩,rfl,(fun h => by cases h),fun _ _ h => by cases h⟩

theorem callbacks_of_idle (hcallback : s.writer.callback? = none) :
    s.callbacks = s.host.toList := by
  rw [callbacks,hcallback,Option.toList_none,List.append_nil]

theorem callbacks_of_some {callback : Callback} (hcallback : s.writer.callback? = some callback) :
    s.callbacks = s.host.toList ++ [callback] := by
  rw [callbacks,hcallback]
  rfl

theorem Inv.host (hi : Inv s) (hcallback : s.writer.callback? = none) :
    Owned s.stream s.host.toList :=
  callbacks_of_idle hcallback ▸ hi.owned

theorem Inv.own (hi : Inv s) {callback : Callback}
    (hcallback : s.writer.callback? = some callback) :
    Owned s.stream (callback :: s.host.toList) :=
  (callbacks_of_some hcallback ▸ hi.owned).perm List.perm_append_comm

/-- The callbacks that follow a transfer leave an idle port alone. -/
theorem Inv.at_rest (hi : Inv s) (hidle : s.stream.fifoEmpty = true) :
    ∀ other ∈ s.host.toList, other.drains = false :=
  fun other hmem => hi.answers hidle other (List.mem_append_left _ hmem)

theorem Inv.of_idle (hcallback : s.writer.callback? = none) (howned : Owned s.stream s.host.toList)
    (henabled : s.stream.port.enabled = !s.writer.masked)
    (hpending : s.stream.port.pending = true → s.writer.masked = true)
    (hrest : s.stream.fifoEmpty = true → ∀ other ∈ s.host.toList, other.drains = false) :
    Inv s := by
  refine ⟨callbacks_of_idle hcallback ▸ howned,henabled,hpending,?_⟩
  have hanswer : s.writer.answer? = none := by
    cases hwriter : s.writer <;> rw [hwriter] at hcallback <;> first | rfl | cases hcallback
  rw [hanswer,Option.toList_none,List.append_nil]
  exact hrest

theorem unsent_of_idle (hcallback : s.writer.callback? = none) :
    s.unsent = s.stream.port.bufOut ++ s.host.toList.flatMap Callback.held ++
      s.stream.outBuf.contents := by
  rw [unsent,callbacks_of_idle hcallback]

theorem resume_spec (s : State) (after : After) :
    (s.resume after).2.stream = s.stream ∧ (s.resume after).2.host = s.host ∧
      (s.resume after).2.writer.callback? = none ∧ (s.resume after).2.writer.masked = false ∧
      (s.resume after).1.flatMap Observation.queuedText = [] ∧
      (s.resume after).1.flatMap Observation.sentText = [] := by
  cases after with
  | counted use len =>
    cases use with
    | measuring => exact ⟨rfl,rfl,rfl,rfl,rfl,rfl⟩
    | testing =>
      refine ⟨rfl,rfl,?_,?_,rfl,rfl⟩ <;> simp only [resume] <;> split_ifs <;> rfl
    | retesting =>
      simp only [resume]
      split_ifs <;> exact ⟨rfl,rfl,rfl,rfl,rfl,rfl⟩
  | written =>
    simp only [resume]
    split_ifs <;> exact ⟨rfl,rfl,rfl,rfl,rfl,rfl⟩

theorem carries_resume (s : State) (after : After)
    (howned : Owned s.stream s.host.toList)
    (henabled : s.stream.port.enabled = true) (hpending : s.stream.port.pending = false)
    (hrest : s.stream.fifoEmpty = true → ∀ other ∈ s.host.toList, other.drains = false) :
    Inv (s.resume after).2 ∧
      s.stream.port.bufOut ++ s.host.toList.flatMap Callback.held ++ s.stream.outBuf.contents ++
          (s.resume after).1.flatMap Observation.queuedText =
        (s.resume after).1.flatMap Observation.sentText ++ (s.resume after).2.unsent := by
  obtain ⟨hstream,hhost,hcallback,hmasked,hqueued,hsent⟩ := resume_spec s after
  refine ⟨Inv.of_idle hcallback ?_ ?_ ?_ ?_,?_⟩
  · rw [hstream,hhost]
    exact howned
  · rw [hstream,hmasked]
    exact henabled
  · rw [hstream,hpending]
    exact fun h => by cases h
  · rw [hstream,hhost]
    exact hrest
  · rw [unsent_of_idle hcallback,hqueued,hsent,hstream,hhost,List.append_nil,List.nil_append]

/-- A step of the writing thread outside the callback that leaves what it shares as it is, but for
the callbacks that it keeps out. -/
theorem Inv.carries_move (hi : Inv s) {writer : Writer} {text : List Char} {tokens : Nat}
    {port : Port} (hcallback : s.writer.callback? = none) (hcallback' : writer.callback? = none)
    (hport : port = s.stream.port ∧ writer.masked = s.writer.masked ∨
      port = (s.stream.port.setupIrq false).2 ∧ writer.masked = true) :
    Carries s [] { s with writer,text,stream.port := port,stream.tokens := tokens } := by
  have howned := hi.host hcallback
  have hrest := hi.at_rest
  rcases hport with ⟨rfl,hsame⟩ | ⟨rfl,hmasked⟩
  · refine ⟨Inv.of_idle hcallback' ?_ ?_ ?_ hrest,?_⟩
    · exact ⟨howned.one,howned.busy,howned.idle,howned.flight,howned.room,howned.some,howned.fresh,
        howned.more⟩
    · simp only [hsame]
      exact hi.enabled
    · simp only [hsame]
      exact hi.pending
    · rw [unsent_of_idle hcallback,unsent_of_idle hcallback']
      exact List.append_nil _
  · have hmask : (s.stream.port.setupIrq false).2 = { s.stream.port with enabled := false } := rfl
    rw [hmask]
    refine ⟨Inv.of_idle hcallback' ?_ ?_ (fun _ => hmasked) hrest,?_⟩
    · exact ⟨howned.one,howned.busy,howned.idle,howned.flight,howned.room,howned.some,howned.fresh,
        howned.more⟩
    · simp only [hmasked]
      rfl
    · rw [unsent_of_idle hcallback,unsent_of_idle hcallback']
      exact List.append_nil _

/-- A callback that follows a transfer has nothing left to do when it has found the buffer empty. -/
theorem answer_step (callback : Callback) (stream : Stream)
    (hbefore : stream.fifoEmpty = true → callback.drains = false)
    (hidle : (callback.step stream).2.fifoEmpty = true) :
    ∀ callback' ∈ (callback.step stream).1, callback'.drains = false := by
  cases callback with
  | setEmpty => simp [Callback.step,Callback.drains]
  | isFull =>
    rw [Callback.step]
    split_ifs <;> simp [Callback.drains]
  | release => simp [Callback.step]
  | setBusy => cases hidle
  | dequeue =>
    rw [Callback.step] at hidle
    cases hdequeue : stream.outBuf.dequeue <;> rw [hdequeue] at hidle <;>
      cases hbefore hidle
  | _ => cases hbefore hidle

theorem fifoEmpty_step {callback : Callback} (stream : Stream) (h : callback.drains = false) :
    (callback.step stream).2.fifoEmpty = stream.fifoEmpty := by
  cases callback with
  | isFull => rfl
  | release => rfl
  | _ => cases h

/-- What a callback does leaves the others without work. -/
theorem others_step {callback : Callback} {rest : List Callback} {stream : Stream}
    (h : Owned stream (callback :: rest)) {other : Callback} (hmem : other ∈ rest)
    (hbefore : stream.fifoEmpty = true → other.drains = false)
    (hidle : (callback.step stream).2.fifoEmpty = true) : other.drains = false := by
  cases hdrains : callback.drains with
  | true => exact (h.alone hdrains).2.2 other hmem
  | false => exact hbefore (fifoEmpty_step stream hdrains ▸ hidle)

theorem unsent_of_some {callback : Callback} (hi : Inv s)
    (hcallback : s.writer.callback? = some callback) :
    s.unsent = s.stream.port.bufOut ++ (callback :: s.host.toList).flatMap Callback.held ++
      s.stream.outBuf.contents := by
  have hcomm := Owned.held_comm (some callback) s.host.toList (hi.own hcallback)
  rw [unsent,callbacks_of_some hcallback]
  exact congrArg (fun held => s.stream.port.bufOut ++ held ++ s.stream.outBuf.contents) hcomm.symm

/-- The callback on the writing thread that follows a transfer. -/
theorem Inv.carries_running (hi : Inv s) {after : After} {callback : Callback}
    (hwriter : s.writer = .running after callback) (h : s.writerStep = some (observed,s')) :
    Carries s observed s' := by
  have hcallback : s.writer.callback? = some callback := by rw [hwriter]; rfl
  obtain ⟨howned,hpending,henabled,htext⟩ := (hi.own hcallback).step
  have hmasked : s.writer.masked = false := by rw [hwriter]; rfl
  have hpending₀ : s.stream.port.pending = false := by
    cases hp : s.stream.port.pending with
    | false => rfl
    | true => cases hmasked.symm.trans (hi.pending hp)
  have henabled₀ : s.stream.port.enabled = true := by rw [hi.enabled,hmasked]; rfl
  have hunsent := unsent_of_some hi hcallback
  have hanswer := answer_step callback s.stream fun hidle =>
    hi.answers hidle callback (by rw [hwriter]; exact List.mem_append_right _ List.mem_cons_self)
  have hothers : ∀ other ∈ s.host.toList, (callback.step s.stream).2.fifoEmpty = true →
      other.drains = false := fun other hmem =>
    others_step (hi.own hcallback) hmem fun hidle => hi.at_rest hidle other hmem
  simp only [writerStep,hwriter] at h
  rcases hstep : callback.step s.stream with ⟨callback',stream⟩
  rw [hstep] at howned hpending henabled htext hanswer hothers
  simp only [hstep] at h
  cases callback' with
  | some callback' =>
    cases h
    refine ⟨⟨howned.perm List.perm_append_comm,henabled.trans henabled₀,
      (fun hp => by cases (hpending.trans hpending₀).symm.trans hp),?_⟩,?_⟩
    · intro hidle other hmem
      rcases List.mem_append.mp hmem with hmem | hmem
      · exact hothers other hmem hidle
      · exact hanswer hidle other (Option.mem_toList.mp hmem)
    · have hcomm := Owned.held_comm (some callback') s.host.toList howned
      rw [hunsent,← htext]
      simp only [List.flatMap_nil,List.append_nil,List.nil_append]
      rw [unsent,callbacks_of_some rfl]
      exact congrArg (fun held => stream.port.bufOut ++ held ++ stream.outBuf.contents) hcomm
  | none =>
    obtain ⟨hinv,hcarried⟩ := carries_resume
      { s with writer := .running after callback,stream } after howned
      (henabled.trans henabled₀) (hpending.trans hpending₀) (fun hidle other hmem =>
        hothers other hmem hidle)
    rw [Option.some.inj h] at hinv hcarried
    refine ⟨hinv,?_⟩
    rw [hunsent,← htext]
    exact hcarried

/-- The callback on the writing thread that begins to send. -/
theorem Inv.carries_kick (hi : Inv s) {callback : Callback}
    (hwriter : s.writer = .kick callback) (h : s.writerStep = some (observed,s')) :
    Carries s observed s' := by
  have hcallback : s.writer.callback? = some callback := by rw [hwriter]; rfl
  obtain ⟨howned,hpending,henabled,htext⟩ := (hi.own hcallback).step
  have hmasked : s.writer.masked = true := by rw [hwriter]; rfl
  have henabled₀ : s.stream.port.enabled = false := by rw [hi.enabled,hmasked]; rfl
  have hunsent := unsent_of_some hi hcallback
  have hothers : ∀ other ∈ s.host.toList, (callback.step s.stream).2.fifoEmpty = true →
      other.drains = false := fun other hmem =>
    others_step (hi.own hcallback) hmem fun hidle => hi.at_rest hidle other hmem
  simp only [writerStep,hwriter] at h
  rcases hstep : callback.step s.stream with ⟨callback',stream⟩
  rw [hstep] at howned hpending henabled htext hothers
  simp only [hstep] at h
  cases callback' with
  | some callback' =>
    cases h
    refine ⟨⟨howned.perm List.perm_append_comm,henabled.trans henabled₀,fun _ => rfl,?_⟩,?_⟩
    · intro hidle other hmem
      rcases List.mem_append.mp hmem with hmem | hmem
      · exact hothers other hmem hidle
      · cases hmem
    · have hcomm := Owned.held_comm (some callback') s.host.toList howned
      rw [hunsent,← htext]
      simp only [List.flatMap_nil,List.append_nil,List.nil_append]
      rw [unsent,callbacks_of_some rfl]
      exact congrArg (fun held => stream.port.bufOut ++ held ++ stream.outBuf.contents) hcomm
  | none =>
    cases h
    refine ⟨Inv.of_idle rfl howned (henabled.trans henabled₀) (fun _ => rfl)
      (fun hidle other hmem => hothers other hmem hidle),?_⟩
    rw [hunsent,← htext,unsent_of_idle rfl]
    exact List.append_nil _

theorem Inv.carries_host (hi : Inv s) (h : s.hostStep = some (observed,s')) :
    Carries s observed s' := by
  rw [hostStep] at h
  cases hhost : s.host with
  | none =>
    rw [hhost] at h
    cases h
  | some callback =>
    rw [hhost] at h
    cases h
    have howned : Owned s.stream (callback :: s.writer.callback?.toList) := by
      have howned := hi.owned
      rw [callbacks,hhost] at howned
      exact howned
    obtain ⟨howned',hpending,henabled,htext⟩ := howned.step
    refine ⟨⟨howned',henabled.trans hi.enabled,fun hp => hi.pending (hpending ▸ hp),?_⟩,?_⟩
    · intro hidle other hmem
      rcases List.mem_append.mp hmem with hmem | hmem
      · refine answer_step _ _ (fun hbefore => hi.at_rest hbefore callback ?_) hidle other
          (Option.mem_toList.mp hmem)
        rw [hhost]
        exact List.mem_cons_self
      · refine others_step howned ?_
          (fun hbefore => hi.answers hbefore other (List.mem_append_right _ hmem)) hidle
        cases hwriter : s.writer <;> rw [hwriter] at hmem <;> first | exact hmem | cases hmem
    · rw [unsent,callbacks,hhost]
      refine (List.append_nil _).trans ?_
      exact htext.symm

/-- A character is put into the buffer. -/
theorem Inv.carries_queue (hi : Inv s) {chunk : List Char} (hwriter : s.writer = .queue chunk)
    (h : s.writerStep = some (observed,s')) : Carries s observed s' := by
  have hcallback : s.writer.callback? = none := by rw [hwriter]; rfl
  have howned := hi.host hcallback
  cases chunk with
  | nil =>
    simp only [writerStep,hwriter] at h
    cases h
    exact hi.carries_move hcallback rfl (.inl ⟨rfl,by rw [hwriter]; rfl⟩)
  | cons c chunk =>
    simp only [writerStep,hwriter] at h
    obtain ⟨outBuf,hqueue,heq⟩ := Option.map_eq_some_iff.mp h
    cases heq
    have hcontents := MtxCircBuffer.contents_queue hqueue
    have henabled := hi.enabled
    rw [hwriter] at henabled
    refine ⟨Inv.of_idle rfl ?_ henabled (fun _ => rfl) hi.at_rest,?_⟩
    · have hne : outBuf.contents ≠ [] := by
        rw [hcontents]
        exact List.append_ne_nil_of_right_ne_nil _ (List.cons_ne_nil _ _)
      exact ⟨howned.one,howned.busy,howned.idle,howned.flight,howned.room,fun _ => hne,howned.fresh,
        fun _ _ _ _ => hne⟩
    · rw [unsent_of_idle hcallback,unsent_of_idle rfl,hcontents]
      simp [Observation.queuedText,Observation.sentText]

/-- The writing thread begins to send, or leaves it to a transfer that goes on. -/
theorem Inv.carries_checkEmpty (hi : Inv s) (hwriter : s.writer = .checkEmpty)
    (h : s.writerStep = some (observed,s')) : Carries s observed s' := by
  have hcallback : s.writer.callback? = none := by rw [hwriter]; rfl
  have howned := hi.host hcallback
  have henabled := hi.enabled
  rw [hwriter] at henabled
  simp only [writerStep,hwriter] at h
  cases hidle : s.stream.fifoEmpty with
  | false =>
    rw [hidle] at h
    cases h
    exact hi.carries_move hcallback rfl (.inl ⟨rfl,by rw [hwriter]; rfl⟩)
  | true =>
    rw [hidle] at h
    cases h
    obtain ⟨hlocked,hpending,-⟩ := howned.idle hidle
    have hflight : s.stream.port.inFlight = false := by
      cases hfly : s.stream.port.inFlight with
      | false => rfl
      | true => cases hlocked.symm.trans (howned.flight hfly)
    have hfresh := howned.fresh hlocked fun other hmem =>
      Owned.fills_of_drains (hi.at_rest hidle other hmem)
    refine ⟨⟨(Owned.call (hi.at_rest hidle) hlocked hpending hflight hfresh).perm
      (List.perm_append_singleton _ _).symm,henabled,fun _ => rfl,?_⟩,?_⟩
    · intro _ other hmem
      rcases List.mem_append.mp hmem with hmem | hmem
      · exact hi.at_rest hidle other hmem
      · cases hmem
    · rw [unsent_of_idle hcallback,unsent,callbacks]
      simp [Writer.callback?,Callback.held]

/-- The writing thread begins to run the callback, or goes on. -/
theorem Inv.carries_unmask (hi : Inv s) {after : After} (hwriter : s.writer = .unmask after)
    (h : s.writerStep = some (observed,s')) : Carries s observed s' := by
  have hcallback : s.writer.callback? = none := by rw [hwriter]; rfl
  have howned := hi.host hcallback
  have hunsent := unsent_of_idle hcallback
  simp only [writerStep,hwriter] at h
  cases hpending : s.stream.port.pending with
  | true =>
    have hport : s.stream.port.setupIrq true =
        (true,{ s.stream.port with enabled := true,pending := false }) := by
      simp [Port.setupIrq,hpending]
    rw [hport] at h
    cases h
    obtain ⟨hsum,hbusy,hrest⟩ := howned.of_busy (.inr hpending)
    rw [hpending,Bool.toNat_true] at hsum
    have hlocked : s.stream.port.locked = false := Bool.toNat_eq_zero.mp (by omega)
    have hflight : s.stream.port.inFlight = false := by
      cases hfly : s.stream.port.inFlight with
      | false => rfl
      | true => cases hlocked.symm.trans (howned.flight hfly)
    have hcall : Owned
        { s.stream with port := { s.stream.port with enabled := true,pending := false } }
        (.isEmpty :: s.host.toList) := Owned.call hrest hlocked rfl hflight
          (howned.fresh hlocked fun other hmem => Owned.fills_of_drains (hrest other hmem))
    refine ⟨⟨hcall.perm (List.perm_append_singleton _ _).symm,rfl,(fun hp => by cases hp),?_⟩,?_⟩
    · exact fun hidle => by cases hbusy.symm.trans hidle
    · rw [hunsent,unsent,callbacks]
      simp [Writer.callback?,Callback.held]
  | false =>
    have hport : s.stream.port.setupIrq true = (false,{ s.stream.port with enabled := true }) := by
      simp [Port.setupIrq,hpending]
    rw [hport] at h
    obtain ⟨hinv,hcarried⟩ := carries_resume
      { s with writer := .unmask after,stream.port := { s.stream.port with enabled := true } } after
      ⟨howned.one,howned.busy,howned.idle,howned.flight,howned.room,howned.some,howned.fresh,
        howned.more⟩ rfl hpending hi.at_rest
    rw [Option.some.inj h] at hinv hcarried
    refine ⟨hinv,?_⟩
    rw [hunsent]
    exact hcarried

theorem Inv.carries_writer (hi : Inv s) (h : s.writerStep = some (observed,s')) :
    Carries s observed s' := by
  cases hwriter : s.writer with
  | running after callback => exact hi.carries_running hwriter h
  | kick callback => exact hi.carries_kick hwriter h
  | outside =>
    rw [writerStep,hwriter] at h
    cases h
  | mask use =>
    simp only [writerStep,hwriter] at h
    cases h
    exact hi.carries_move (by rw [hwriter]; rfl) rfl (.inr ⟨rfl,rfl⟩)
  | maskWrite chunk =>
    simp only [writerStep,hwriter] at h
    cases h
    exact hi.carries_move (by rw [hwriter]; rfl) rfl (.inr ⟨rfl,rfl⟩)
  | count use =>
    simp only [writerStep,hwriter] at h
    cases h
    exact hi.carries_move (by rw [hwriter]; rfl) rfl (.inl ⟨rfl,by rw [hwriter]; rfl⟩)
  | waiting =>
    simp only [writerStep,hwriter] at h
    split_ifs at h
    cases h
    exact hi.carries_move (by rw [hwriter]; rfl) rfl (.inl ⟨rfl,by rw [hwriter]; rfl⟩)
  | drain =>
    simp only [writerStep,hwriter] at h
    split_ifs at h
    · cases h
      exact hi.carries_move (by rw [hwriter]; rfl) rfl (.inl ⟨rfl,by rw [hwriter]; rfl⟩)
    · cases h
      exact hi.carries_move (by rw [hwriter]; rfl) rfl (.inl ⟨rfl,by rw [hwriter]⟩)
  | checkBuf =>
    simp only [writerStep,hwriter] at h
    cases h
    split_ifs <;>
      exact hi.carries_move (by rw [hwriter]; rfl) rfl (.inl ⟨rfl,by rw [hwriter]; rfl⟩)
  | queue chunk => exact hi.carries_queue hwriter h
  | checkEmpty => exact hi.carries_checkEmpty hwriter h
  | unmask after => exact hi.carries_unmask hwriter h

/-- The packet of a transfer that ends has been sent. -/
theorem Inv.carries_complete (hi : Inv s) (h : s.step .complete = some (observed,s')) :
    Carries s observed s' := by
  simp only [step] at h
  split_ifs at h with hc
  have hlocked := hi.owned.flight hc.1
  obtain ⟨hsum,hbusy,hrest⟩ := hi.owned.of_busy (.inl hlocked)
  rw [hlocked,Bool.toNat_true] at hsum
  have hpending : s.stream.port.pending = false := Bool.toNat_eq_zero.mp (by omega)
  have hcallbacks : s.callbacks = s.writer.callback?.toList := by rw [callbacks,hc.2]; rfl
  have hheld := Owned.held_rest hrest
  rw [hcallbacks] at hrest hheld
  have hunsent : s.unsent = s.stream.port.bufOut ++ s.stream.outBuf.contents := by
    rw [unsent,hcallbacks,hheld,List.append_nil]
  cases henabled : s.stream.port.enabled with
  | true =>
    rw [Port.txHandler,if_pos henabled] at h
    cases h
    refine ⟨⟨Owned.call hrest rfl hpending rfl rfl,hi.enabled,hi.pending,?_⟩,?_⟩
    · exact fun hidle => by cases hbusy.symm.trans hidle
    · rw [hunsent,unsent,callbacks]
      simp [Observation.queuedText,Observation.sentText,Callback.held,hheld]
  | false =>
    rw [Port.txHandler,if_neg (by rw [henabled]; exact Bool.false_ne_true)] at h
    cases h
    have hmasked := hi.enabled
    rw [henabled] at hmasked
    refine ⟨⟨?_,hi.enabled,fun _ => (Bool.not_eq_false' _).mp hmasked.symm,?_⟩,?_⟩
    · have hpass := Owned.of_rest { s.stream with port := { s.stream.port with
        bufOut := [],locked := false,inFlight := false,pending := true } } none
        hrest (fun _ hmem => by cases hmem) (Nat.le_refl _) (fun _ => rfl)
        (fun hidle => by cases hbusy.symm.trans hidle) (fun hfly => by cases hfly) (fun _ => rfl)
      rw [callbacks]
      simp only [hc.2]
      exact hpass
    · exact fun hidle => by cases hbusy.symm.trans hidle
    · rw [hunsent,unsent,callbacks]
      simp only [hc.2,Option.toList_none,List.nil_append,hheld]
      simp [Observation.queuedText,Observation.sentText]

theorem carries_step (hi : Inv s) (h : s.step a = some (observed,s')) : Carries s observed s' := by
  cases a with
  | write text =>
    simp only [step] at h
    split_ifs at h with hc
    cases h
    exact hi.carries_move (by rw [hc]; rfl) rfl (.inl ⟨rfl,by rw [hc]; rfl⟩)
  | writer => exact hi.carries_writer h
  | complete => exact hi.carries_complete h
  | fail =>
    simp only [step] at h
    split_ifs at h
    cases h
    exact ⟨⟨⟨hi.owned.one,hi.owned.busy,hi.owned.idle,(fun hfly => by cases hfly),hi.owned.room,
      hi.owned.some,hi.owned.fresh,hi.owned.more⟩,hi.enabled,hi.pending,hi.answers⟩,
      List.append_nil _⟩
  | host => exact hi.carries_host h

/-- Whatever the order of the steps: what the port has sent is what `write` has put into the buffer,
each character once and in order, up to what is on the way. -/
theorem run_sends {maxOutSize : Nat} {outBuf : List Char}
    (hsize : outBuf.length = circBufSize + 1) {inputs : List Action}
    {outputs : List (List Observation)}
    (hrun : Transition.run step (start maxOutSize outBuf hsize) inputs = some (outputs,s')) :
    outputs.flatten.flatMap Observation.queuedText =
      outputs.flatten.flatMap Observation.sentText ++ s'.unsent := by
  have hkeeps := Transition.run_observes_all
    (I := fun trace s => Inv s ∧ trace.flatMap Observation.queuedText =
      trace.flatMap Observation.sentText ++ s.unsent) ?_ inputs _ [] ?_ hrun
  · exact hkeeps.2
  · rintro trace s a observed s' ⟨hi,htrace⟩ hstep
    obtain ⟨hinv,htext⟩ := carries_step hi hstep
    refine ⟨hinv,?_⟩
    rw [List.flatMap_append,List.flatMap_append,htrace,List.append_assoc,htext,List.append_assoc]
  · exact ⟨inv_start maxOutSize outBuf hsize,rfl⟩

theorem run_sends_command : ∃ outputs s',
    Transition.run step (start 64 (List.replicate (circBufSize + 1) nul) List.length_replicate)
      ([.write ['A','T']] ++ List.replicate 28 .writer ++ [.complete]) = some (outputs,s') ∧
    outputs.flatten.flatMap Observation.queuedText =
      outputs.flatten.flatMap Observation.sentText ++ s'.unsent := by
  have hrun : (Transition.run step
      (start 64 (List.replicate (circBufSize + 1) nul) List.length_replicate)
      ([.write ['A','T']] ++ List.replicate 28 .writer ++ [.complete])).isSome = true := by
    decide +kernel
  obtain ⟨⟨outputs,s'⟩,hreached⟩ := Option.isSome_iff_exists.mp hrun
  exact ⟨outputs,s',hreached,run_sends List.length_replicate hreached⟩

end State

end Pyrn.Modem.Tx
