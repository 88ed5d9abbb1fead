import Pyrn.Framework.Run
import Pyrn.Modem.MtxCircBuffer
import Pyrn.Modem.ReadLine

/-!
# Reading from the serial port

A packet of the USB host is carried into the buffer of `USBSerialStream` by its callback `readable`,
on the thread of the host, or on the reading thread when that lets callbacks in again. The steps of
the two threads, and of those that post a command and abort the read, come in any order.
-/

namespace Pyrn.Modem.Rx

/-- `CIRCBUF_SIZE + 1`. -/
def circBufSize : Nat := 128

/-- `WANDONGLE_MAX_INEP_SIZE`. -/
def maxInEndpoint : Nat := 64

/-- The receiving half of `WANDongleSerialPort`. -/
structure Port where
  /-- `lock_rx`. -/
  locked : Bool
  /-- Whether the host carries out a transfer. -/
  inFlight : Bool
  /-- What lies in `buf_in` between `buf_in_read_pos` and `buf_in_len`. -/
  packet : List Char
  /-- `cb_rx_en`. -/
  enabled : Bool
  /-- `cb_rx_pending`. -/
  pending : Bool
  deriving DecidableEq, Repr

namespace Port

def readable (p : Port) : Nat := if p.locked then 0 else p.packet.length

def getc (p : Port) : Char × Port :=
  if p.locked then (nul,p)
  else
    match p.packet with
    | [] => (nul,p)
    | c :: packet => (c,{ p with packet })

/-- `readPacket` starts a transfer, unless one is said to go on. -/
def readPacket (p : Port) : Port :=
  if p.locked then p else { p with locked := true,inFlight := true }

/-- `setupIrq`; whether the callback is called for a packet that came meanwhile. -/
def setupIrq (en : Bool) (p : Port) : Bool × Port :=
  if en && p.pending then (true,{ p with enabled := en,pending := false })
  else (false,{ p with enabled := en })

/-- `rxHandler` behind a transfer; whether the callback is called. -/
def rxHandler (packet : List Char) (p : Port) : Bool × Port :=
  if p.enabled then (true,{ p with packet,locked := false,inFlight := false })
  else (false,{ p with packet,locked := false,inFlight := false,pending := true })

/-- A transfer is not accepted or ends with an error. `lock_rx` stays set, so that the `readPacket`
of the error path does nothing. -/
def fail (p : Port) : Port := { p with inFlight := false }

end Port

/-- What the threads share. -/
structure Stream where
  port : Port
  inBuf : MtxCircBuffer Char circBufSize
  /-- The count of `m_availableSphre`. -/
  tokens : Nat
  deriving DecidableEq

/-- Where a thread is in `USBSerialStream::readable`. -/
inductive Callback
  | test
  | fetch
  /-- At `m_inBuf.queue`, with a character. -/
  | store (c : Char)
  /-- At `m_serial.readPacket`. -/
  | next
  /-- At `m_availableSphre.release`. -/
  | signal
  deriving DecidableEq, Repr

namespace Callback

/-- A step of the callback; it is `none` where the buffer is full. The last step leaves the
callback. -/
def step (s : Stream) : Callback → Option (Option Callback × Stream)
  | test => if s.port.readable ≠ 0 then some (some fetch,s) else some (some next,s)
  | fetch => some (some (store s.port.getc.1),{ s with port := s.port.getc.2 })
  | store c => (s.inBuf.queue c).map fun inBuf => (some test,{ s with inBuf })
  | next => some (some signal,{ s with port := s.port.readPacket })
  | signal => some (none,{ s with tokens := s.tokens + 1 })

/-- Whether the packet of the port is still this callback's. -/
def drains : Callback → Bool
  | signal => false
  | _ => true

/-- What the callback has taken from the port and not stored. -/
def held : Callback → List Char
  | store c => [c]
  | _ => []

end Callback

/-- A callback takes nothing out of the buffer. -/
theorem Callback.step_available {s s' : Stream} {callback : Callback} {callback' : Option Callback}
    (h : callback.step s = some (callback',s')) : s.inBuf.available ≤ s'.inBuf.available := by
  cases callback with
  | test =>
    rw [step] at h
    split_ifs at h <;> cases h <;> exact Nat.le_refl _
  | store c =>
    obtain ⟨inBuf,hqueue,heq⟩ := Option.map_eq_some_iff.mp h
    cases heq
    have hlength := congrArg List.length (MtxCircBuffer.contents_queue hqueue)
    rw [List.length_append,MtxCircBuffer.length_contents,MtxCircBuffer.length_contents] at hlength
    exact hlength ▸ Nat.le_add_right _ _
  | _ =>
    cases h
    exact Nat.le_refl _

/-- Which call of `available` it is: the one of `waitAvailable`, or the one behind it in `read`. -/
inductive Use
  | testing
  | measuring
  deriving DecidableEq, Repr

/-- What the reading thread goes on with when it has let callbacks in again. -/
inductive After
  | counted (use : Use) (len : Nat)
  | read (taken : List Char)
  deriving DecidableEq, Repr

/-- Where the reading thread is. -/
inductive Reader
  | sendCommand
  /-- In `available`. -/
  | mask (use : Use)
  | count (use : Use)
  | unmask (after : After)
  /-- In the callback, for a packet that came while callbacks were kept out. -/
  | running (after : After) (callback : Callback)
  /-- At `m_availableSphre.wait(timeout)`. -/
  | waiting
  | woken
  /-- At `while( m_availableSphre.wait(0) > 0 )`. -/
  | drain
  /-- In `read`, with the characters still to be taken. -/
  | maskRead (readLen : Nat)
  | dequeue (readLen : Nat) (taken : List Char)
  deriving DecidableEq, Repr

namespace Reader

def callback? : Reader → Option Callback
  | running _ callback => some callback
  | _ => none

/-- What a call of `read` that is not over has taken from the buffer. -/
def taken : Reader → List Char
  | unmask (.read taken) => taken
  | running (.read taken) _ => taken
  | dequeue _ taken => taken
  | _ => []

/-- Whether the reading thread keeps callbacks out. -/
def masked : Reader → Bool
  | count _ => true
  | unmask _ => true
  | dequeue _ _ => true
  | _ => false

end Reader

structure State where
  stream : Stream
  /-- Where the thread of the host is in the callback. -/
  host : Option Callback
  reader : Reader
  /-- The `maxLength` of `read`, when `tryReadLine` is there. -/
  maxLength : Option Nat
  /-- Whether `m_env2AT` holds a message. -/
  mail : Bool
  /-- Whether the thread that has put it is still to call `abortRead`. -/
  posting : Bool
  deriving DecidableEq

inductive Action
  /-- The host ends a transfer with a packet, or without one. -/
  | arrive (packet : List Char)
  | fail
  /-- A step of the callback on the thread of the host. -/
  | host
  /-- A step of the reading thread; `maxLength` is the room that a `read` is begun with. -/
  | reader (maxLength : Nat)
  | put
  | abortRead
  deriving DecidableEq, Repr

inductive Observation
  | received (packet : List Char)
  | read (text : List Char)
  | took
  deriving DecidableEq, Repr

namespace State

/-- The reading thread behind `setupReadableISR(true)`. -/
def resume (s : State) : After → List Observation × State
  | .counted .testing len => ([],{ s with reader := if len = 0 then .waiting else .drain })
  | .counted .measuring len => ([],{ s with reader := .maskRead (min len (s.maxLength.getD 0)) })
  | .read taken => ([.read taken],{ s with reader := .sendCommand })

/-- `process`: `tryReadLine`, as far as it reads, and `trySendCommand`, as far as it takes the
message. It is `none` where the thread waits. -/
def readerStep (s : State) (maxLength : Nat) : Option (List Observation × State) :=
  match s.reader with
  | .sendCommand => some (if s.mail then [.took] else [],
      { s with reader := .mask .testing,maxLength := none,mail := false })
  | .mask use => some ([],
      { s with reader := .count use,stream.port := (s.stream.port.setupIrq false).2 })
  | .count use =>
      some ([],{ s with reader := .unmask (.counted use s.stream.inBuf.available) })
  | .unmask after =>
      match s.stream.port.setupIrq true with
      | (true,port) => some ([],{ s with reader := .running after .test,stream.port := port })
      | (false,port) => some (resume { s with stream.port := port } after)
  | .running after callback =>
      match callback.step s.stream with
      | none => none
      | some (some callback,stream) => some ([],{ s with reader := .running after callback,stream })
      | some (none,stream) => some (resume { s with stream } after)
  | .waiting =>
      if s.stream.tokens = 0 then
        -- the first call waits for ever, the one of `read` not at all
        if s.maxLength = none then none else some ([],{ s with reader := .sendCommand })
      else some ([],{ s with reader := .woken,stream.tokens := s.stream.tokens - 1 })
  | .woken => some ([],
      { s with reader := if s.stream.inBuf.available = 0 then .sendCommand else .drain })
  | .drain =>
      if s.stream.tokens = 0 then
        match s.maxLength with
        | none => some ([],{ s with reader := .mask .testing,maxLength := some maxLength })
        | some _ => some ([],{ s with reader := .mask .measuring })
      else some ([],{ s with stream.tokens := s.stream.tokens - 1 })
  | .maskRead readLen => some ([],
      { s with reader := .dequeue readLen [],stream.port := (s.stream.port.setupIrq false).2 })
  | .dequeue 0 taken => some ([],{ s with reader := .unmask (.read taken) })
  | .dequeue (readLen + 1) taken =>
      match s.stream.inBuf.dequeue with
      -- the character in the buffer of the caller stays as it was
      | none => some ([],{ s with reader := .dequeue readLen (taken ++ [nul]) })
      | some (c,inBuf) =>
          some ([],{ s with reader := .dequeue readLen (taken ++ [c]),stream.inBuf := inBuf })

def hostStep (s : State) : Option (List Observation × State) :=
  match s.host with
  | none => none
  | some callback => (callback.step s.stream).map fun (host,stream) => ([],{ s with host,stream })

def step (s : State) : Action → Option (List Observation × State)
  | .arrive packet =>
      if s.stream.port.inFlight = true ∧ s.host = none ∧ packet.length ≤ maxInEndpoint then
        match s.stream.port.rxHandler packet with
        | (true,port) => some ([.received packet],{ s with host := some .test,stream.port := port })
        | (false,port) => some ([.received packet],{ s with stream.port := port })
      else none
  | .fail =>
      if s.stream.port.inFlight = true then some ([],{ s with stream.port := s.stream.port.fail })
      else none
  | .host => s.hostStep
  | .reader maxLength => s.readerStep maxLength
  | .put =>
      if s.mail = false ∧ s.posting = false then some ([],{ s with mail := true,posting := true })
      else none
  | .abortRead =>
      if s.posting = true then
        some ([],{ s with posting := false,stream.tokens := s.stream.tokens + 1 })
      else none

/-- The stream on a connected port, when the processing starts. -/
def start (inBuf : List Char) (hsize : inBuf.length = circBufSize) : State :=
  ⟨⟨⟨true,true,[],true,false⟩,.empty inBuf (by decide) hsize,0⟩,none,.sendCommand,none,false,false⟩

/-- The callbacks that run, on either thread. -/
def callbacks (s : State) : List Callback := s.host.toList ++ s.reader.callback?.toList

/-- What has been received and no call of `read` has returned yet. -/
def unread (s : State) : List Char :=
  s.reader.taken ++ s.stream.inBuf.contents ++ s.callbacks.flatMap Callback.held ++
    s.stream.port.packet

end State

/-- The packet buffer of the port has one owner: the transfer that fills it, the callback that is
still to be called, or a callback that empties it. -/
structure Owned (p : Port) (callbacks : List Callback) : Prop where
  one : p.locked.toNat + p.pending.toNat + callbacks.countP Callback.drains = 1
  flight : p.inFlight = true → p.locked = true
  emptied : p.locked = true ∨ .next ∈ callbacks → p.packet = []
  fetch : .fetch ∈ callbacks → p.packet ≠ []

namespace Owned

variable {p : Port} {callback : Callback} {rest : List Callback} {s s' : Stream}
  {callback' : Option Callback}

theorem perm {callbacks callbacks' : List Callback} (h : Owned p callbacks)
    (hperm : callbacks.Perm callbacks') : Owned p callbacks' := by
  refine ⟨?_,h.flight,fun hor => h.emptied (hor.imp id hperm.mem_iff.mpr),
    fun hmem => h.fetch (hperm.mem_iff.mpr hmem)⟩
  rw [← hperm.countP_eq]
  exact h.one

theorem signals_of_countP (h : rest.countP Callback.drains = 0) :
    ∀ other ∈ rest, other = .signal := by
  intro other hmem
  have hnot := List.countP_eq_zero.mp h other hmem
  cases other <;> first | rfl | exact absurd rfl hnot

/-- The others have nothing to do with the packet of a callback. -/
theorem alone (h : Owned p (callback :: rest)) (hdrains : callback.drains = true) :
    p.locked = false ∧ p.pending = false ∧ ∀ other ∈ rest, other = .signal := by
  have hone := h.one
  rw [List.countP_cons_of_pos hdrains] at hone
  exact ⟨Bool.toNat_eq_zero.mp (by omega),Bool.toNat_eq_zero.mp (by omega),
    signals_of_countP (by omega)⟩

theorem of_pending (h : Owned p rest) (hpending : p.pending = true) :
    p.locked = false ∧ ∀ other ∈ rest, other = .signal := by
  have hone := h.one
  rw [hpending,Bool.toNat_true] at hone
  exact ⟨Bool.toNat_eq_zero.mp (by omega),signals_of_countP (by omega)⟩

theorem of_locked (h : Owned p rest) (hlocked : p.locked = true) :
    p.pending = false ∧ ∀ other ∈ rest, other = .signal := by
  have hone := h.one
  rw [hlocked,Bool.toNat_true] at hone
  exact ⟨Bool.toNat_eq_zero.mp (by omega),signals_of_countP (by omega)⟩

theorem held_signals (h : ∀ other ∈ rest, other = .signal) : rest.flatMap Callback.held = [] := by
  rw [List.flatMap_eq_nil_iff]
  intro other hmem
  rw [h other hmem]
  rfl

/-- When nobody owns the packet, the port does. -/
theorem of_signals {q : Port} (hsignals : ∀ other ∈ rest, other = .signal)
    (hone : q.locked.toNat + q.pending.toNat = 1) (hflight : q.inFlight = true → q.locked = true)
    (hempty : q.locked = true → q.packet = []) : Owned q rest := by
  refine ⟨?_,hflight,?_,fun hmem => by cases hsignals _ hmem⟩
  · rw [List.countP_eq_zero.mpr fun other hmem => by rw [hsignals other hmem]; decide]
    exact hone
  · rintro (hlocked | hmem)
    · exact hempty hlocked
    · cases hsignals _ hmem

/-- A callback that owns the packet. -/
theorem of_callback {q : Port} (hsignals : ∀ other ∈ rest, other = .signal)
    (hdrains : callback.drains = true) (hlocked : q.locked = false) (hpending : q.pending = false)
    (hflight : q.inFlight = false) (hnext : callback = .next → q.packet = [])
    (hfetch : callback = .fetch → q.packet ≠ []) : Owned q (callback :: rest) := by
  refine ⟨?_,(fun htrue => by cases hflight.symm.trans htrue),?_,?_⟩
  · have hrest : rest.countP Callback.drains = 0 :=
      List.countP_eq_zero.mpr fun other hmem => by rw [hsignals other hmem]; decide
    rw [List.countP_cons_of_pos hdrains,hrest,hlocked,hpending]
    rfl
  · rintro (htrue | hmem)
    · cases hlocked.symm.trans htrue
    · rcases List.mem_cons.mp hmem with heq | hmem
      · exact hnext heq.symm
      · cases hsignals _ hmem
  · intro hmem
    rcases List.mem_cons.mp hmem with heq | hmem
    · exact hfetch heq.symm
    · cases hsignals _ hmem

/-- A step of a callback hands on the packet as it is. -/
theorem step (h : Owned s.port (callback :: rest))
    (hstep : callback.step s = some (callback',s')) :
    Owned s'.port (callback'.toList ++ rest) ∧ s'.port.pending = s.port.pending ∧
      s'.port.enabled = s.port.enabled ∧
      s'.inBuf.contents ++ (callback'.toList ++ rest).flatMap Callback.held ++ s'.port.packet =
        s.inBuf.contents ++ (callback :: rest).flatMap Callback.held ++ s.port.packet := by
  have hflight : s.port.locked = false → s.port.inFlight = false := by
    intro hlocked
    cases hfly : s.port.inFlight with
    | false => rfl
    | true => cases hlocked.symm.trans (h.flight hfly)
  cases callback with
  | test =>
    obtain ⟨hlocked,hpending,hsignals⟩ := h.alone rfl
    have hreadable : s.port.readable = s.port.packet.length :=
      if_neg (by rw [hlocked]; exact Bool.false_ne_true)
    rw [Callback.step,hreadable] at hstep
    split_ifs at hstep with hsome
    · cases hstep
      refine ⟨of_callback hsignals rfl hlocked hpending (hflight hlocked) (fun heq => by cases heq)
        fun _ => List.ne_nil_of_length_pos (Nat.pos_of_ne_zero hsome),rfl,rfl,rfl⟩
    · cases hstep
      refine ⟨of_callback hsignals rfl hlocked hpending (hflight hlocked)
        (fun _ => List.eq_nil_of_length_eq_zero (not_not.mp hsome)) (fun heq => by cases heq),
        rfl,rfl,rfl⟩
  | fetch =>
    obtain ⟨hlocked,hpending,hsignals⟩ := h.alone rfl
    obtain ⟨c,packet,hpacket⟩ :=
      List.exists_cons_of_ne_nil (h.fetch List.mem_cons_self)
    have hgetc : s.port.getc = (c,{ s.port with packet }) := by
      simp only [Port.getc,hlocked,hpacket,Bool.false_eq_true,if_false]
    simp only [Callback.step,hgetc] at hstep
    cases hstep
    refine ⟨of_callback hsignals rfl hlocked hpending (hflight hlocked) (fun heq => by cases heq)
      (fun heq => by cases heq),rfl,rfl,?_⟩
    simp [Callback.held,hpacket,held_signals hsignals]
  | store c =>
    obtain ⟨hlocked,hpending,hsignals⟩ := h.alone rfl
    rw [Callback.step] at hstep
    obtain ⟨inBuf,hqueue,heq⟩ := Option.map_eq_some_iff.mp hstep
    cases heq
    refine ⟨of_callback hsignals rfl hlocked hpending (hflight hlocked) (fun heq => by cases heq)
      (fun heq => by cases heq),rfl,rfl,?_⟩
    simp [Callback.held,MtxCircBuffer.contents_queue hqueue,held_signals hsignals]
  | next =>
    obtain ⟨hlocked,hpending,hsignals⟩ := h.alone rfl
    have hempty := h.emptied (.inr List.mem_cons_self)
    have hread : s.port.readPacket = { s.port with locked := true,inFlight := true } :=
      if_neg (by rw [hlocked]; exact Bool.false_ne_true)
    rw [Callback.step,hread] at hstep
    cases hstep
    have hall : ∀ other ∈ Callback.signal :: rest, other = .signal :=
      List.forall_mem_cons.mpr ⟨rfl,hsignals⟩
    refine ⟨of_signals hall ?_ (fun _ => rfl) fun _ => hempty,rfl,rfl,rfl⟩
    rw [hpending]
    rfl
  | signal =>
    rw [Callback.step] at hstep
    cases hstep
    have hone := h.one
    rw [List.countP_cons_of_neg (by decide)] at hone
    exact ⟨⟨hone,h.flight,fun hor => h.emptied (hor.imp id (List.mem_cons_of_mem _)),
      fun hmem => h.fetch (List.mem_cons_of_mem _ hmem)⟩,rfl,rfl,rfl⟩

theorem held_comm (own : Option Callback) (rest : List Callback)
    (h : Owned p (own.toList ++ rest)) :
    (own.toList ++ rest).flatMap Callback.held = (rest ++ own.toList).flatMap Callback.held := by
  cases own with
  | none => rw [Option.toList_none,List.nil_append,List.append_nil]
  | some callback =>
    cases hdrains : callback.drains with
    | true =>
      have hnil : rest.flatMap Callback.held = [] := held_signals (h.alone hdrains).2.2
      rw [List.flatMap_append,List.flatMap_append,hnil,List.append_nil,List.nil_append]
    | false =>
      cases callback with
      | signal => simp [Callback.held]
      | _ => cases hdrains

end Owned

/-- The reading thread is not in the callback, keeps none out, and has taken nothing. -/
structure Reader.Resting (r : Reader) : Prop where
  callback : r.callback? = none
  taken : r.taken = []
  unmasked : r.masked = false

/-- The characters of the buffer that the reading thread has counted. -/
def Reader.counts : Reader → Nat
  | unmask (.counted _ len) => len
  | running (.counted _ len) _ => len
  | maskRead readLen => readLen
  | dequeue readLen _ => readLen
  | _ => 0

def Observation.receivedText : Observation → List Char
  | received packet => packet
  | _ => []

def Observation.readText : Observation → List Char
  | read text => text
  | _ => []

namespace State

variable {s s' : State} {observed : List Observation} {a : Action}

structure Inv (s : State) : Prop where
  owned : Owned s.stream.port s.callbacks
  enabled : s.stream.port.enabled = !s.reader.masked
  pending : s.stream.port.pending = true → s.reader.masked = true
  counted : s.reader.counts ≤ s.stream.inBuf.available

/-- What a step takes in and what it hands out. -/
structure Carries (s : State) (observed : List Observation) (s' : State) : Prop where
  inv : Inv s'
  text : s.unread ++ observed.flatMap Observation.receivedText =
    observed.flatMap Observation.readText ++ s'.unread

theorem inv_start (inBuf : List Char) (hsize : inBuf.length = circBufSize) :
    Inv (start inBuf hsize) :=
  ⟨⟨rfl,fun _ => rfl,fun _ => rfl,fun hmem => by cases hmem⟩,rfl,(fun h => by cases h),Nat.zero_le _⟩

theorem callbacks_of_idle (hcallback : s.reader.callback? = none) :
    s.callbacks = s.host.toList := by
  rw [callbacks,hcallback,Option.toList_none,List.append_nil]

theorem callbacks_of_running {after : After} {callback : Callback}
    (hreader : s.reader = .running after callback) :
    s.callbacks = s.host.toList ++ [callback] := by
  rw [callbacks,hreader]
  rfl

theorem Inv.of_idle (hcallback : s.reader.callback? = none)
    (howned : Owned s.stream.port s.host.toList)
    (henabled : s.stream.port.enabled = !s.reader.masked)
    (hpending : s.stream.port.pending = true → s.reader.masked = true)
    (hcounted : s.reader.counts ≤ s.stream.inBuf.available) : Inv s :=
  ⟨callbacks_of_idle hcallback ▸ howned,henabled,hpending,hcounted⟩

theorem Inv.host (hi : Inv s) (hcallback : s.reader.callback? = none) :
    Owned s.stream.port s.host.toList :=
  callbacks_of_idle hcallback ▸ hi.owned

theorem Inv.running (hi : Inv s) {after : After} {callback : Callback}
    (hreader : s.reader = .running after callback) :
    Owned s.stream.port (callback :: s.host.toList) :=
  (callbacks_of_running hreader ▸ hi.owned).perm List.perm_append_comm

theorem unread_of_idle (hcallback : s.reader.callback? = none) :
    s.unread = s.reader.taken ++ (s.stream.inBuf.contents ++
      s.host.toList.flatMap Callback.held ++ s.stream.port.packet) := by
  rw [unread,callbacks_of_idle hcallback]
  simp only [List.append_assoc]

/-- Letting callbacks in again, the reading thread goes on with what it has taken or counted. -/
theorem resume_spec (s : State) (after : After) :
    (s.resume after).2.stream = s.stream ∧ (s.resume after).2.host = s.host ∧
      (s.resume after).2.reader.callback? = none ∧ (s.resume after).2.reader.masked = false ∧
      (s.resume after).2.reader.counts ≤ (Reader.unmask after).counts ∧
      (s.resume after).1.flatMap Observation.readText ++ (s.resume after).2.reader.taken =
        (Reader.unmask after).taken ∧
      (s.resume after).1.flatMap Observation.receivedText = [] := by
  cases after with
  | counted use len =>
    cases use with
    | testing =>
      refine ⟨rfl,rfl,?_,?_,?_,?_,rfl⟩ <;> simp only [resume] <;> split_ifs <;>
        first | rfl | exact Nat.zero_le _
    | measuring => exact ⟨rfl,rfl,rfl,rfl,Nat.min_le_left _ _,rfl,rfl⟩
  | read taken => exact ⟨rfl,rfl,rfl,rfl,Nat.le_refl _,by simp [resume,Reader.taken,
      Observation.readText],rfl⟩

theorem carries_resume (s : State) (after : After)
    (howned : Owned s.stream.port s.host.toList)
    (henabled : s.stream.port.enabled = true) (hpending : s.stream.port.pending = false)
    (hcounted : (Reader.unmask after).counts ≤ s.stream.inBuf.available) :
    Inv (s.resume after).2 ∧
      (Reader.unmask after).taken ++ (s.stream.inBuf.contents ++
        s.host.toList.flatMap Callback.held ++ s.stream.port.packet) ++
          (s.resume after).1.flatMap Observation.receivedText =
        (s.resume after).1.flatMap Observation.readText ++ (s.resume after).2.unread := by
  obtain ⟨hstream,hhost,hcallback,hmasked,hcounts,htaken,hreceived⟩ := resume_spec s after
  refine ⟨Inv.of_idle hcallback ?_ ?_ ?_ ?_,?_⟩
  · rw [hstream,hhost]
    exact howned
  · rw [hstream,hmasked]
    exact henabled
  · rw [hstream,hpending]
    exact fun h => by cases h
  · rw [hstream]
    exact Nat.le_trans hcounts hcounted
  · rw [unread_of_idle hcallback,hreceived,hstream,hhost,← htaken,List.append_nil,
      List.append_assoc]

/-- A step of the reading thread outside the callback that leaves what it shares as it is, but for
the callbacks that it keeps out. -/
theorem Inv.carries_move (hi : Inv s) {reader : Reader} {stream : Stream} {maxLength : Option Nat}
    {mail : Bool} (hcallback : s.reader.callback? = none) (hcallback' : reader.callback? = none)
    (htaken : reader.taken = s.reader.taken) (hinBuf : stream.inBuf = s.stream.inBuf)
    (hport : stream.port = s.stream.port ∧ reader.masked = s.reader.masked ∨
      stream.port = (s.stream.port.setupIrq false).2 ∧ reader.masked = true)
    (hcounts : reader.counts ≤ s.stream.inBuf.available)
    (hobserved : observed = [] ∨ observed = [.took]) :
    Carries s observed { s with reader,stream,maxLength,mail } := by
  have hnone : observed.flatMap Observation.receivedText = [] ∧
      observed.flatMap Observation.readText = [] := by
    rcases hobserved with rfl | rfl <;> exact ⟨rfl,rfl⟩
  have hmask : (s.stream.port.setupIrq false).2 = { s.stream.port with enabled := false } := rfl
  refine ⟨Inv.of_idle hcallback' ?_ ?_ ?_ ?_,?_⟩
  · have howned := hi.host hcallback
    rcases hport with ⟨hport,-⟩ | ⟨hport,-⟩
    · exact hport ▸ howned
    · simp only [hport,hmask]
      exact ⟨howned.one,howned.flight,howned.emptied,howned.fetch⟩
  · rcases hport with ⟨hport,hsame⟩ | ⟨hport,hsame⟩
    · simp only [hport,hsame]
      exact hi.enabled
    · simp only [hport,hmask,hsame]
      rfl
  · rcases hport with ⟨hport,hsame⟩ | ⟨-,hsame⟩
    · simp only [hport,hsame]
      exact hi.pending
    · exact fun _ => hsame
  · simp only [hinBuf]
    exact hcounts
  · have hpacket : stream.port.packet = s.stream.port.packet := by
      rcases hport with ⟨hport,-⟩ | ⟨hport,-⟩ <;> rw [hport]
      rfl
    rw [unread_of_idle hcallback,unread_of_idle hcallback',hnone.1,hnone.2,List.append_nil,
      List.nil_append]
    simp only [hpacket,hinBuf,htaken]

/-- The callback on the reading thread. -/
theorem Inv.carries_running (hi : Inv s) {after : After} {callback : Callback}
    (hreader : s.reader = .running after callback) {maxLength : Nat}
    (h : s.readerStep maxLength = some (observed,s')) : Carries s observed s' := by
  have howned := hi.running hreader
  have henabled : s.stream.port.enabled = true := by
    rw [hi.enabled,hreader]
    rfl
  have hpending : s.stream.port.pending = false := by
    cases hp : s.stream.port.pending with
    | false => rfl
    | true =>
      have hmasked := hi.pending hp
      rw [hreader] at hmasked
      cases hmasked
  have hcounted : (Reader.unmask after).counts ≤ s.stream.inBuf.available := by
    have hle := hi.counted
    rw [hreader] at hle
    cases after <;> exact hle
  have htaken : s.reader.taken = (Reader.unmask after).taken := by
    rw [hreader]
    cases after <;> rfl
  have hunread : s.unread = (Reader.unmask after).taken ++ (s.stream.inBuf.contents ++
      (callback :: s.host.toList).flatMap Callback.held ++ s.stream.port.packet) := by
    have hcomm := Owned.held_comm (some callback) s.host.toList howned
    rw [unread,callbacks,htaken,hreader]
    simp only [Reader.callback?,List.append_assoc]
    rw [← hcomm]
    rfl
  rw [readerStep,hreader] at h
  cases hstep : callback.step s.stream with
  | none =>
    simp only [hstep] at h
    cases h
  | some reached =>
    obtain ⟨callback',stream⟩ := reached
    obtain ⟨howned',hpending',henabled',htext⟩ := howned.step hstep
    have hroom := Callback.step_available hstep
    cases callback' with
    | some callback' =>
      simp only [hstep] at h
      cases h
      refine ⟨⟨howned'.perm List.perm_append_comm,?_,?_,?_⟩,?_⟩
      · exact henabled'.trans henabled
      · exact fun hp => by cases (hpending'.trans hpending).symm.trans hp
      · have hle := Nat.le_trans hcounted hroom
        cases after <;> exact hle
      · have hcomm := Owned.held_comm (some callback') s.host.toList howned'
        rw [hunread,← htext,hcomm]
        cases after <;> simp [unread,callbacks,Reader.callback?,Reader.taken]
    | none =>
      simp only [hstep] at h
      obtain ⟨hinv,hcarried⟩ := carries_resume
        { s with reader := .running after callback,stream } after howned'
        (henabled'.trans henabled) (hpending'.trans hpending) (Nat.le_trans hcounted hroom)
      rw [Option.some.inj h] at hinv hcarried
      refine ⟨hinv,?_⟩
      rw [hunread,← htext]
      exact hcarried

/-- The thread of the host. -/
theorem Inv.carries_host (hi : Inv s) (h : s.hostStep = some (observed,s')) :
    Carries s observed s' := by
  rw [hostStep] at h
  cases hhost : s.host with
  | none =>
    rw [hhost] at h
    cases h
  | some callback =>
    simp only [hhost] at h
    obtain ⟨⟨callback',stream⟩,hstep,heq⟩ := Option.map_eq_some_iff.mp h
    cases heq
    have howned : Owned s.stream.port (callback :: s.reader.callback?.toList) := by
      have := hi.owned
      rw [callbacks,hhost] at this
      exact this
    obtain ⟨howned',hpending,henabled,htext⟩ := howned.step hstep
    refine ⟨⟨howned',henabled.trans hi.enabled,fun hp => hi.pending (hpending ▸ hp),?_⟩,?_⟩
    · exact Nat.le_trans hi.counted (Callback.step_available hstep)
    · rw [List.flatMap_nil,List.flatMap_nil,List.append_nil,List.nil_append,unread,unread,callbacks,
        callbacks,hhost]
      simp only [List.append_assoc] at htext ⊢
      rw [htext]
      rfl

/-- A step of the reading thread outside `available`, the callback and the taking of characters. -/
theorem Inv.carries_rest (hi : Inv s) {reader : Reader} {tokens : Nat} {maxLength : Option Nat}
    {mail : Bool} (hrest : s.reader.Resting) (hrest' : reader.Resting)
    (hcounts : reader.counts ≤ s.stream.inBuf.available)
    (hobserved : observed = [] ∨ observed = [.took]) :
    Carries s observed
      { s with reader,stream.tokens := tokens,maxLength,mail } :=
  hi.carries_move hrest.callback hrest'.callback (hrest'.taken.trans hrest.taken.symm) rfl
    (.inl ⟨rfl,hrest'.unmasked.trans hrest.unmasked.symm⟩) hcounts hobserved

/-- The reading thread begins to run the callback, or goes on. -/
theorem Inv.carries_unmask (hi : Inv s) {after : After} (hreader : s.reader = .unmask after)
    {maxLength : Nat} (h : s.readerStep maxLength = some (observed,s')) :
    Carries s observed s' := by
  have hcallback : s.reader.callback? = none := by rw [hreader]; rfl
  have howned := hi.host hcallback
  have hcounted := hi.counted
  have hunread := unread_of_idle hcallback
  rw [hreader] at hcounted hunread
  simp only [readerStep,hreader] at h
  cases hpending : s.stream.port.pending with
  | true =>
    have hport : s.stream.port.setupIrq true =
        (true,{ s.stream.port with enabled := true,pending := false }) := by
      simp [Port.setupIrq,hpending]
    rw [hport] at h
    cases h
    obtain ⟨hlocked,hsignals⟩ := howned.of_pending hpending
    have hflight : s.stream.port.inFlight = false := by
      cases hfly : s.stream.port.inFlight with
      | false => rfl
      | true => cases hlocked.symm.trans (howned.flight hfly)
    have howned' : Owned { s.stream.port with enabled := true,pending := false }
        (.test :: s.host.toList) :=
      .of_callback hsignals rfl hlocked rfl hflight (fun heq => by cases heq)
        (fun heq => by cases heq)
    refine ⟨⟨howned'.perm (List.perm_append_singleton _ _).symm,rfl,(fun hp => by cases hp),?_⟩,?_⟩
    · cases after <;> exact hcounted
    · rw [hunread]
      cases after <;> simp [unread,callbacks,Reader.callback?,Reader.taken,Callback.held]
  | false =>
    have hport : s.stream.port.setupIrq true = (false,{ s.stream.port with enabled := true }) := by
      simp [Port.setupIrq,hpending]
    rw [hport] at h
    obtain ⟨hinv,hcarried⟩ := carries_resume
      { s with reader := .unmask after,stream.port := { s.stream.port with enabled := true } } after
      ⟨howned.one,howned.flight,howned.emptied,howned.fetch⟩ rfl hpending hcounted
    rw [Option.some.inj h] at hinv hcarried
    refine ⟨hinv,?_⟩
    rw [hunread]
    exact hcarried

/-- The reading thread takes a character. -/
theorem Inv.carries_dequeue (hi : Inv s) {readLen : Nat} {taken : List Char}
    (hreader : s.reader = .dequeue (readLen + 1) taken)
    {maxLength : Nat} (h : s.readerStep maxLength = some (observed,s')) :
    Carries s observed s' := by
  have hcallback : s.reader.callback? = none := by rw [hreader]; rfl
  have hcounted := hi.counted
  have hunread := unread_of_idle hcallback
  rw [hreader] at hcounted hunread
  simp only [readerStep,hreader] at h
  cases hdequeue : s.stream.inBuf.dequeue with
  | none =>
    rw [MtxCircBuffer.dequeue_eq_none_iff,← List.length_eq_zero_iff,
      MtxCircBuffer.length_contents] at hdequeue
    rw [hdequeue] at hcounted
    cases hcounted
  | some reached =>
    obtain ⟨c,inBuf⟩ := reached
    simp only [hdequeue] at h
    cases h
    have hcontents := MtxCircBuffer.contents_dequeue hdequeue
    have hlength := congrArg List.length hcontents
    rw [List.length_cons,MtxCircBuffer.length_contents,MtxCircBuffer.length_contents] at hlength
    have henabled := hi.enabled
    rw [hreader] at henabled
    refine ⟨Inv.of_idle rfl (hi.host hcallback) henabled (fun _ => rfl) ?_,?_⟩
    · rw [hlength] at hcounted
      exact Nat.le_of_succ_le_succ hcounted
    · rw [hunread,unread_of_idle rfl,hcontents]
      simp [Reader.taken]

theorem Inv.carries_reader (hi : Inv s) {maxLength : Nat}
    (h : s.readerStep maxLength = some (observed,s')) : Carries s observed s' := by
  cases hreader : s.reader with
  | running after callback => exact hi.carries_running hreader h
  | unmask after => exact hi.carries_unmask hreader h
  | sendCommand =>
    simp only [readerStep,hreader] at h
    cases h
    refine hi.carries_rest (hreader ▸ ⟨rfl,rfl,rfl⟩) ⟨rfl,rfl,rfl⟩ (Nat.zero_le _) ?_
    cases s.mail
    · exact .inl rfl
    · exact .inr rfl
  | mask use =>
    simp only [readerStep,hreader] at h
    cases h
    exact hi.carries_move (by rw [hreader]; rfl) rfl (by rw [hreader]; rfl) rfl (.inr ⟨rfl,rfl⟩)
      (Nat.zero_le _) (.inl rfl)
  | count use =>
    simp only [readerStep,hreader] at h
    cases h
    exact hi.carries_move (by rw [hreader]; rfl) rfl (by rw [hreader]; rfl) rfl
      (.inl ⟨rfl,by rw [hreader]; rfl⟩) (Nat.le_refl _) (.inl rfl)
  | waiting =>
    simp only [readerStep,hreader] at h
    split_ifs at h <;> cases h <;>
      exact hi.carries_rest (hreader ▸ ⟨rfl,rfl,rfl⟩) ⟨rfl,rfl,rfl⟩ (Nat.zero_le _) (.inl rfl)
  | woken =>
    simp only [readerStep,hreader] at h
    split_ifs at h <;> cases h <;>
      exact hi.carries_rest (hreader ▸ ⟨rfl,rfl,rfl⟩) ⟨rfl,rfl,rfl⟩ (Nat.zero_le _) (.inl rfl)
  | drain =>
    simp only [readerStep,hreader] at h
    split_ifs at h
    · cases hmax : s.maxLength <;> simp only [hmax] at h <;> cases h <;>
        exact hi.carries_rest (hreader ▸ ⟨rfl,rfl,rfl⟩) ⟨rfl,rfl,rfl⟩ (Nat.zero_le _) (.inl rfl)
    · cases h
      exact hi.carries_rest (hreader ▸ ⟨rfl,rfl,rfl⟩) ⟨rfl,rfl,rfl⟩ (Nat.zero_le _) (.inl rfl)
  | maskRead readLen =>
    have hcounted := hi.counted
    rw [hreader] at hcounted
    simp only [readerStep,hreader] at h
    cases h
    exact hi.carries_move (by rw [hreader]; rfl) rfl (by rw [hreader]; rfl) rfl (.inr ⟨rfl,rfl⟩)
      hcounted (.inl rfl)
  | dequeue readLen taken =>
    cases readLen with
    | zero =>
      simp only [readerStep,hreader] at h
      cases h
      exact hi.carries_move (by rw [hreader]; rfl) rfl (by rw [hreader]; rfl) rfl
        (.inl ⟨rfl,by rw [hreader]; rfl⟩) (Nat.zero_le _) (.inl rfl)
    | succ readLen => exact hi.carries_dequeue hreader h

/-- The packet of a transfer that ends waits in the port for the callback. -/
theorem Inv.carries_arrive (hi : Inv s) {packet : List Char}
    (h : s.step (.arrive packet) = some (observed,s')) : Carries s observed s' := by
  simp only [step] at h
  split_ifs at h with hc
  have hlocked := hi.owned.flight hc.1
  have hempty := hi.owned.emptied (.inl hlocked)
  obtain ⟨hpending,hsignals⟩ := hi.owned.of_locked hlocked
  cases henabled : s.stream.port.enabled with
  | true =>
    have hport : s.stream.port.rxHandler packet =
        (true,{ s.stream.port with packet,locked := false,inFlight := false }) := by
      rw [Port.rxHandler,if_pos henabled]
    rw [hport] at h
    cases h
    have hrest : s.callbacks = s.reader.callback?.toList := by rw [callbacks,hc.2.1]; rfl
    rw [hrest] at hsignals
    refine ⟨⟨Owned.of_callback hsignals rfl rfl hpending rfl (fun heq => by cases heq)
      (fun heq => by cases heq),hi.enabled,hi.pending,hi.counted⟩,?_⟩
    rw [unread,unread,hempty,hrest,Owned.held_signals hsignals,callbacks]
    simp [Observation.receivedText,Observation.readText,Callback.held,
      Owned.held_signals hsignals]
  | false =>
    have hport : s.stream.port.rxHandler packet =
        (false,{ s.stream.port with
          packet,locked := false,inFlight := false,pending := true }) := by
      rw [Port.rxHandler,if_neg (by rw [henabled]; exact Bool.false_ne_true)]
    rw [hport] at h
    cases h
    have hmasked := hi.enabled
    rw [henabled] at hmasked
    refine ⟨⟨Owned.of_signals hsignals rfl (fun htrue => by cases htrue)
      (fun htrue => by cases htrue),hi.enabled,fun _ => (Bool.not_eq_false' _).mp hmasked.symm,
      hi.counted⟩,?_⟩
    rw [unread,unread,hempty]
    simp [Observation.receivedText,Observation.readText,callbacks]

theorem carries_step (hi : Inv s) (h : s.step a = some (observed,s')) : Carries s observed s' := by
  cases a with
  | arrive packet => exact hi.carries_arrive h
  | host => exact hi.carries_host h
  | reader maxLength => exact hi.carries_reader h
  | fail =>
    simp only [step] at h
    split_ifs at h
    cases h
    exact ⟨⟨⟨hi.owned.one,(fun hfly => by cases hfly),hi.owned.emptied,hi.owned.fetch⟩,hi.enabled,
      hi.pending,hi.counted⟩,List.append_nil _⟩
  | put =>
    simp only [step] at h
    split_ifs at h
    cases h
    exact ⟨⟨hi.owned,hi.enabled,hi.pending,hi.counted⟩,List.append_nil _⟩
  | abortRead =>
    simp only [step] at h
    split_ifs at h
    cases h
    exact ⟨⟨hi.owned,hi.enabled,hi.pending,hi.counted⟩,List.append_nil _⟩

/-- Whatever the order of the steps: what `read` has returned is what the port has received, each
character once and in order, up to what is on the way. -/
theorem run_delivers {inBuf : List Char} (hsize : inBuf.length = circBufSize)
    {inputs : List Action} {outputs : List (List Observation)}
    (hrun : Transition.run step (start inBuf hsize) inputs = some (outputs,s')) :
    outputs.flatten.flatMap Observation.receivedText =
      outputs.flatten.flatMap Observation.readText ++ s'.unread := by
  have hkeeps := Transition.run_observes_all
    (I := fun trace s => Inv s ∧ trace.flatMap Observation.receivedText =
      trace.flatMap Observation.readText ++ s.unread) ?_ inputs _ [] ?_ hrun
  · exact hkeeps.2
  · rintro trace s a observed s' ⟨hi,htrace⟩ hstep
    obtain ⟨hinv,htext⟩ := carries_step hi hstep
    refine ⟨hinv,?_⟩
    rw [List.flatMap_append,List.flatMap_append,htrace,List.append_assoc,htext,List.append_assoc]
  · exact ⟨inv_start inBuf hsize,rfl⟩

/-- A packet comes while the reading thread keeps callbacks out, which then carries it itself. -/
theorem run_delivers_pending : ∃ outputs s',
    Transition.run step (start (List.replicate circBufSize nul) List.length_replicate)
      [.reader 0,.reader 0,.arrive ['O','K'],.reader 0,.reader 0,.reader 0,.reader 0,.reader 0] =
        some (outputs,s') ∧
    outputs.flatten.flatMap Observation.receivedText =
      outputs.flatten.flatMap Observation.readText ++ s'.unread := by
  have hrun : (Transition.run step (start (List.replicate circBufSize nul) List.length_replicate)
      [.reader 0,.reader 0,.arrive ['O','K'],.reader 0,.reader 0,.reader 0,.reader 0,
        .reader 0]).isSome = true := by decide +kernel
  obtain ⟨⟨outputs,s'⟩,hreached⟩ := Option.isSome_iff_exists.mp hrun
  exact ⟨outputs,s',hreached,run_delivers List.length_replicate hreached⟩

end State

end Pyrn.Modem.Rx
