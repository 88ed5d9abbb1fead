import Pyrn.Can.CallBackTable
import Pyrn.Can.Message
import Mathlib.Data.List.Perm.Basic

/-!
# Dispatching a message

`DispatchCANMessage` makes two tests for every entry of the callback table. The promiscuous one
does not look at the bus, and a hit of the other one ends the loop.
-/

namespace Pyrn.Can

def canIdPromiscuousMode : UInt32 := 0xffffffff

/-- `CAN_BUS_DONT_CARE` in the `uint8_t` field of an entry. -/
def canBusDontCare : UInt8 := 255

/-- The conversion to `int8_t`. -/
def int8 (x : UInt8) : Int := if x.toNat < 128 then x.toNat else x.toNat - 256

/-- The second test: the right bus, or any bus, and the right identifier. -/
def Listens (bus : UInt8) (msg : CANMessage) (entry : IdCbEntry) : Prop :=
  (int8 entry.bus = bus.toNat ∨ int8 entry.bus = -1) ∧ entry.id = msg.id

instance (bus : UInt8) (msg : CANMessage) (entry : IdCbEntry) :
    Decidable (Listens bus msg entry) := inferInstanceAs (Decidable (_ ∧ _))

/-- The entries whose callbacks are called, in order, from index `i` of the table on. -/
def dispatchFrom (bus : UInt8) (msg : CANMessage) : Nat → List IdCbEntry → List Nat
  | _, [] => []
  | i, entry :: rest =>
      (if entry.id = canIdPromiscuousMode then [i] else []) ++
        if Listens bus msg entry then [i] else dispatchFrom bus msg (i + 1) rest

/-- `DispatchCANMessage` over `idCbTable[0..nCurrentCbs)`. -/
def dispatchCANMessage (bus : UInt8) (msg : CANMessage) (table : List IdCbEntry) : List Nat :=
  dispatchFrom bus msg 0 table

def Promiscuous (entry : IdCbEntry) : Prop := entry.id = canIdPromiscuousMode

instance (entry : IdCbEntry) : Decidable (Promiscuous entry) :=
  inferInstanceAs (Decidable (_ = _))

/-- The entry is registered for the bus or for any bus. -/
def OnBus (bus : UInt8) (entry : IdCbEntry) : Prop :=
  entry.bus = bus ∨ entry.bus = canBusDontCare

instance (bus : UInt8) (entry : IdCbEntry) : Decidable (OnBus bus entry) :=
  inferInstanceAs (Decidable (_ ∨ _))

/-- An entry that listens for the exact identifier of the message. -/
def ListensExactly (bus : UInt8) (msg : CANMessage) (entry : IdCbEntry) : Prop :=
  Listens bus msg entry ∧ ¬Promiscuous entry

instance (bus : UInt8) (msg : CANMessage) (entry : IdCbEntry) :
    Decidable (ListensExactly bus msg entry) := inferInstanceAs (Decidable (_ ∧ _))

/-- A listener of the table is called. -/
def Called (bus : UInt8) (msg : CANMessage) (table : List IdCbEntry) (entry : IdCbEntry) : Prop :=
  ∃ i ∈ dispatchCANMessage bus msg table, table[i]? = some entry

/-- The promiscuous entries of the bus are called once and the others never, whatever the order
of registration and whoever listens for the exact identifier. -/
structure PromiscuousServed (bus : UInt8) (msg : CANMessage) (table : List IdCbEntry) : Prop where
  once : ∀ i entry, table[i]? = some entry → Promiscuous entry →
    (dispatchCANMessage bus msg table).count i = if OnBus bus entry then 1 else 0
  order : ∀ table' : List IdCbEntry, table'.Perm table → ∀ entry, Promiscuous entry →
    (Called bus msg table' entry ↔ Called bus msg table entry)
  others : ∀ entry, Promiscuous entry →
    (Called bus msg (table.filter fun other => ¬ListensExactly bus msg other) entry ↔
      Called bus msg table entry)

section

variable {bus : UInt8} {msg : CANMessage} {table : List IdCbEntry} {entry : IdCbEntry}

theorem le_of_mem_dispatchFrom {i j : Nat} (hj : j ∈ dispatchFrom bus msg i table) : i ≤ j := by
  induction table generalizing i with
  | nil => cases hj
  | cons entry rest ih =>
    rw [dispatchFrom,List.mem_append] at hj
    rcases hj with hj | hj
    · split_ifs at hj
      · exact (List.mem_singleton.mp hj).ge
      · cases hj
    · split_ifs at hj
      · exact (List.mem_singleton.mp hj).ge
      · exact Nat.le_of_succ_le (ih hj)

theorem count_dispatchFrom_of_lt {i j : Nat} (hlt : j < i) :
    (dispatchFrom bus msg i table).count j = 0 :=
  List.count_eq_zero.mpr fun hj => absurd (le_of_mem_dispatchFrom hj) (not_le.mpr hlt)

theorem count_first_of_lt {p : Prop} [Decidable p] {i j : Nat} (hlt : i < j) :
    (if p then [i] else []).count j = 0 := by
  apply List.count_eq_zero.mpr
  intro hmem
  split_ifs at hmem
  · exact absurd (List.mem_singleton.mp hmem) (Nat.ne_of_gt hlt)
  · cases hmem

/-- Where nobody makes the second test succeed, each promiscuous entry is called once. -/
theorem count_dispatchFrom_of_quiet (hquiet : ∀ entry ∈ table, ¬Listens bus msg entry)
    (i k : Nat) : (dispatchFrom bus msg i table).count (i + k) =
      if ∃ entry, table[k]? = some entry ∧ Promiscuous entry then 1 else 0 := by
  induction table generalizing i k with
  | nil => simp [dispatchFrom]
  | cons first rest ih =>
    have hfirst : ¬Listens bus msg first := hquiet first List.mem_cons_self
    have hrest : ∀ entry ∈ rest, ¬Listens bus msg entry :=
      fun entry hentry => hquiet entry (List.mem_cons_of_mem first hentry)
    rw [dispatchFrom,if_neg hfirst,List.count_append]
    cases k with
    | zero =>
      have hbehind : (dispatchFrom bus msg (i + 1) rest).count (i + 0) = 0 :=
        count_dispatchFrom_of_lt (Nat.lt_succ_self i)
      rw [hbehind]
      by_cases hid : first.id = canIdPromiscuousMode
      · rw [if_pos hid,if_pos ⟨first,rfl,hid⟩]
        exact List.count_singleton_self
      · rw [if_neg hid,if_neg]
        · rfl
        · rintro ⟨entry,hentry,hpromiscuous⟩
          cases hentry
          exact hid hpromiscuous
    | succ k =>
      have hindex : i + (k + 1) = i + 1 + k := by omega
      rw [count_first_of_lt (by omega),hindex,ih hrest (i + 1) k,Nat.zero_add]
      rfl

/-- The first entry for which the second test succeeds is called once more if it is promiscuous. -/
theorem exists_count_dispatchFrom (hlistens : ∃ entry ∈ table, Listens bus msg entry) (i : Nat) :
    ∃ k entry, table[k]? = some entry ∧ Listens bus msg entry ∧
      (dispatchFrom bus msg i table).count (i + k) = if Promiscuous entry then 2 else 1 := by
  induction table generalizing i with
  | nil =>
    obtain ⟨entry,hentry,-⟩ := hlistens
    cases hentry
  | cons first rest ih =>
    by_cases hfirst : Listens bus msg first
    · refine ⟨0,first,rfl,hfirst,?_⟩
      rw [dispatchFrom,if_pos hfirst,List.count_append,Nat.add_zero,List.count_singleton_self]
      by_cases hid : Promiscuous first
      · rw [if_pos hid,if_pos (show first.id = canIdPromiscuousMode from hid),
          List.count_singleton_self]
      · rw [if_neg hid,if_neg (show ¬first.id = canIdPromiscuousMode from hid)]
        rfl
    · have hrest : ∃ entry ∈ rest, Listens bus msg entry := by
        obtain ⟨entry,hentry,hlistens⟩ := hlistens
        rcases List.mem_cons.mp hentry with rfl | hentry
        · exact absurd hlistens hfirst
        · exact ⟨entry,hentry,hlistens⟩
      obtain ⟨k,entry,hentry,hlistens,hcount⟩ := ih hrest (i + 1)
      refine ⟨k + 1,entry,hentry,hlistens,?_⟩
      have hindex : i + (k + 1) = i + 1 + k := by omega
      rw [dispatchFrom,if_neg hfirst,List.count_append,
        count_first_of_lt (by omega),hindex,hcount,Nat.zero_add]

theorem called_iff_of_quiet (hquiet : ∀ entry ∈ table, ¬Listens bus msg entry)
    (hentry : Promiscuous entry) : Called bus msg table entry ↔ entry ∈ table := by
  constructor
  · rintro ⟨i,-,hi⟩
    exact List.mem_of_getElem? hi
  · intro hmem
    obtain ⟨i,hi⟩ := List.mem_iff_getElem?.mp hmem
    have hcount := count_dispatchFrom_of_quiet hquiet 0 i
    rw [if_pos ⟨entry,hi,hentry⟩,Nat.zero_add] at hcount
    refine ⟨i,List.count_pos_iff.mp ?_,hi⟩
    rw [dispatchCANMessage,hcount]
    exact Nat.one_pos

theorem called_iff_of_once {bus : UInt8} (hserved : PromiscuousServed bus msg table)
    (hmem : entry ∈ table) (hentry : Promiscuous entry) :
    Called bus msg table entry ↔ OnBus bus entry := by
  constructor
  · rintro ⟨i,hcalled,hi⟩
    have hcount := hserved.once i entry hi hentry
    have hpos := List.count_pos_iff.mpr hcalled
    by_contra hbus
    rw [if_neg hbus] at hcount
    omega
  · intro hbus
    obtain ⟨i,hi⟩ := List.mem_iff_getElem?.mp hmem
    have hcount := hserved.once i entry hi hentry
    rw [if_pos hbus] at hcount
    refine ⟨i,List.count_pos_iff.mp ?_,hi⟩
    omega

/-- A promiscuous entry in front is called. -/
theorem called_head (hentry : Promiscuous entry) : Called bus msg (entry :: table) entry := by
  refine ⟨0,?_,rfl⟩
  rw [dispatchCANMessage,dispatchFrom,if_pos (show entry.id = canIdPromiscuousMode from hentry)]
  exact List.mem_append_left _ (List.mem_singleton_self 0)

/-- Behind an entry that listens for the exact identifier nobody is called. -/
theorem not_called_behind {first : IdCbEntry} (hfirst : ListensExactly bus msg first)
    (hentry : Promiscuous entry) : ¬Called bus msg (first :: table) entry := by
  rintro ⟨i,hcalled,hi⟩
  have hother : ¬first.id = canIdPromiscuousMode := hfirst.2
  rw [dispatchCANMessage,dispatchFrom,if_neg hother,if_pos hfirst.1,List.nil_append,
    List.mem_singleton] at hcalled
  subst hcalled
  cases hi
  exact hfirst.2 hentry

theorem listens_of_onBus (hbus : bus.toNat < 128) (honBus : OnBus bus entry)
    (hid : entry.id = msg.id) : Listens bus msg entry := by
  refine ⟨?_,hid⟩
  rcases honBus with heq | heq
  · left
    rw [int8,heq,if_pos hbus]
  · right
    rw [heq]
    rfl

end

/-- A message of a bus reaches the promiscuous entries as claimed exactly when there are none, or
all of them are of its bus and nobody listens for its identifier. -/
theorem dispatchCANMessage_exact (bus : UInt8) (msg : CANMessage) (table : List IdCbEntry)
    (hbus : bus.toNat < 128) : PromiscuousServed bus msg table ↔
      (∀ entry ∈ table, ¬Promiscuous entry) ∨
        msg.id ≠ canIdPromiscuousMode ∧ ∀ entry ∈ table,
          (Promiscuous entry → OnBus bus entry) ∧ ¬ListensExactly bus msg entry := by
  constructor
  · intro hserved
    by_contra! hfails
    obtain ⟨⟨listener,hmem,hlistener⟩,hdisturbed⟩ := hfails
    have hallOnBus : ∀ entry ∈ table, Promiscuous entry → OnBus bus entry := by
      intro entry hentry hpromiscuous
      have hperm := (List.perm_cons_erase hentry).symm
      have hcalled := (hserved.order _ hperm entry hpromiscuous).mp (called_head hpromiscuous)
      exact (called_iff_of_once hserved hentry hpromiscuous).mp hcalled
    have hcalled : Called bus msg table listener :=
      (called_iff_of_once hserved hmem hlistener).mpr (hallOnBus listener hmem hlistener)
    have hnobody : ∀ entry ∈ table, ¬ListensExactly bus msg entry := by
      intro entry hentry hexactly
      have hperm := (List.perm_cons_erase hentry).symm
      exact not_called_behind hexactly hlistener
        ((hserved.order _ hperm listener hlistener).mpr hcalled)
    have hid : msg.id ≠ canIdPromiscuousMode := by
      intro hid
      have hlistens : Listens bus msg listener :=
        listens_of_onBus hbus (hallOnBus listener hmem hlistener) (hlistener.trans hid.symm)
      obtain ⟨k,entry,hentry,hlistens,hcount⟩ :=
        exists_count_dispatchFrom ⟨listener,hmem,hlistens⟩ 0
      have hpromiscuous : Promiscuous entry := hlistens.2.trans hid
      have honce := hserved.once k entry hentry hpromiscuous
      rw [if_pos (hallOnBus entry (List.mem_of_getElem? hentry) hpromiscuous)] at honce
      rw [if_pos hpromiscuous,Nat.zero_add,← dispatchCANMessage,honce] at hcount
      omega
    obtain ⟨entry,hentry,hbad⟩ := hdisturbed hid
    exact hnobody entry hentry (hbad (hallOnBus entry hentry))
  · rintro (hnone | ⟨hid,hall⟩)
    · have hnever (table' : List IdCbEntry) (hsub : ∀ entry ∈ table', entry ∈ table)
          (entry : IdCbEntry) (hentry : Promiscuous entry) : ¬Called bus msg table' entry := by
        rintro ⟨i,-,hi⟩
        exact hnone entry (hsub entry (List.mem_of_getElem? hi)) hentry
      have hself := hnever table fun _ => id
      refine ⟨fun i entry hi hentry => absurd hentry (hnone entry (List.mem_of_getElem? hi)),?_,?_⟩
      · intro table' hperm entry hentry
        exact iff_of_false (hnever table' (fun _ h => hperm.mem_iff.mp h) entry hentry)
          (hself entry hentry)
      · intro entry hentry
        exact iff_of_false (hnever _ (fun _ h => (List.mem_filter.mp h).1) entry hentry)
          (hself entry hentry)
    · have hquiet : ∀ entry ∈ table, ¬Listens bus msg entry := by
        intro entry hentry hlistens
        by_cases hpromiscuous : Promiscuous entry
        · exact hid (hlistens.2.symm.trans hpromiscuous)
        · exact (hall entry hentry).2 ⟨hlistens,hpromiscuous⟩
      refine ⟨?_,?_,?_⟩
      · intro i entry hi hentry
        have hcount := count_dispatchFrom_of_quiet hquiet 0 i
        rw [if_pos ⟨entry,hi,hentry⟩,Nat.zero_add] at hcount
        rw [if_pos ((hall entry (List.mem_of_getElem? hi)).1 hentry)]
        exact hcount
      · intro table' hperm entry hentry
        have hquiet' : ∀ entry ∈ table', ¬Listens bus msg entry :=
          fun entry h => hquiet entry (hperm.mem_iff.mp h)
        rw [called_iff_of_quiet hquiet' hentry,called_iff_of_quiet hquiet hentry]
        exact hperm.mem_iff
      · intro entry hentry
        have hkept : (table.filter fun other => ¬ListensExactly bus msg other) = table :=
          List.filter_eq_self.mpr fun other hother => decide_eq_true (hall other hother).2
        rw [hkept]

/-- A recorder on bus 1 and a promiscuous listener on bus 2. -/
def recorderAndSniffer : List IdCbEntry := [⟨1,0x7E8,0x1000⟩,⟨2,canIdPromiscuousMode,0x2000⟩]

theorem dispatchCANMessage_exact_sniffed :
    PromiscuousServed 2 .empty recorderAndSniffer :=
  (dispatchCANMessage_exact 2 .empty recorderAndSniffer (by decide)).mpr
    (.inr ⟨by decide,by decide⟩)

/-- The listener of bus 2 is called for a message of bus 1. -/
theorem dispatchCANMessage_wrongBus :
    dispatchCANMessage 1 .empty recorderAndSniffer = [1] ∧
      ¬PromiscuousServed 1 .empty recorderAndSniffer := by
  refine ⟨rfl,fun hserved => ?_⟩
  have honce := hserved.once 1 ⟨2,canIdPromiscuousMode,0x2000⟩ rfl rfl
  revert honce
  decide

end Pyrn.Can
