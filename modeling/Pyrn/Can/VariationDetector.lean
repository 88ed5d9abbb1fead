import Pyrn.Can.Communicator6A
import Pyrn.Can.Recorder
import Pyrn.Framework.Run
import Mathlib.Data.List.GetD

/-!
# The variation detector

`CANVariationDetector` keeps the last bytes of each identifier and reports the bytes that change.
Its table has thirty entries, whose identifiers are half as wide as those of the messages, and an
entry starts with no more bytes than its first message has.
-/

namespace Pyrn.Can

def numFrameEntryMax : Nat := 30

structure CANFrameEntry where
  id : UInt16
  data : List UInt8
  data_length : data.length = 8

/-- A reported change: the identifier, the position and the new byte. -/
structure Change where
  id : UInt32
  j : Nat
  value : UInt8
  deriving DecidableEq, Repr

/-- `fe` is the whole array; the entries from `nFrameEntry` on are not initialised. -/
structure CANVariationDetector where
  fe : List CANFrameEntry
  nFrameEntry : Nat

/-- The loop over the bytes of a message that has its entry: what it reports, and the bytes of
the entry behind it. -/
def compareBytes (msg : CANMessage) : Nat → Nat → List UInt8 → List Change × List UInt8
  | 0, _, data => ([],data)
  | left + 1, j, data =>
      if data.getD j 0 ≠ msg.byte j then
        let (changes,data) := compareBytes msg left (j + 1) (data.set j (msg.byte j))
        (⟨msg.id,j,msg.byte j⟩ :: changes,data)
      else compareBytes msg left (j + 1) data

theorem compareBytes_length (msg : CANMessage) (left j : Nat) (data : List UInt8) :
    (compareBytes msg left j data).2.length = data.length := by
  induction left generalizing j data with
  | zero => rfl
  | succ left ih =>
    rw [compareBytes]
    split
    · dsimp only
      rw [ih,List.length_set]
    · exact ih (j + 1) data

namespace CANFrameEntry

/-- `fe[i].id == id`, where `id` is the identifier as an `int`. -/
def Matches (entry : CANFrameEntry) (msg : CANMessage) : Prop :=
  (entry.id.toNat : Int) = msg.id.toBitVec.toInt

instance (entry : CANFrameEntry) (msg : CANMessage) : Decidable (entry.Matches msg) :=
  inferInstanceAs (Decidable (_ = _))

/-- The entry behind the loop over the bytes of a message. -/
def compared (entry : CANFrameEntry) (msg : CANMessage) : CANFrameEntry where
  id := entry.id
  data := (compareBytes msg msg.len.toNat 0 entry.data).2
  data_length := by
    rw [compareBytes_length]
    exact entry.data_length

theorem insert_length (entry : CANFrameEntry) (msg : CANMessage) :
    (msg.data.take msg.len.toNat ++ entry.data.drop msg.len.toNat).length = 8 := by
  rw [List.length_append,List.length_take,List.length_drop,msg.data_length,entry.data_length]
  omega

/-- The entry into which a message is inserted. -/
def insert (entry : CANFrameEntry) (msg : CANMessage) : CANFrameEntry where
  id := msg.id.toUInt16
  data := msg.data.take msg.len.toNat ++ entry.data.drop msg.len.toNat
  data_length := insert_length entry msg

end CANFrameEntry

namespace CANVariationDetector

/-- The entries that the search goes through. -/
def live (st : CANVariationDetector) : List CANFrameEntry := st.fe.take st.nFrameEntry

/-- The entry at which the search stops. -/
def search (st : CANVariationDetector) (msg : CANMessage) : Option Nat :=
  st.live.findIdx? fun entry => decide (entry.Matches msg)

/-- `event`, with the changes that it reports; `none` is a write outside `fe`. -/
def event (st : CANVariationDetector) (ID : UInt32) (msg : CANMessage) :
    Option (List Change × CANVariationDetector) :=
  if ID &&& 0x0f = canCallback then
    match st.search msg with
    | some i => do
        let entry ← st.fe[i]?
        return ((compareBytes msg msg.len.toNat 0 entry.data).1,
          { st with fe := st.fe.set i (entry.compared msg) })
    | none => do
        let entry ← st.fe[st.nFrameEntry]?
        return ([],⟨st.fe.set st.nFrameEntry (entry.insert msg),st.nFrameEntry + 1⟩)
  else some ([],st)

end CANVariationDetector

/-- A call of `event` for a message that has come over the bus. -/
structure Arrival where
  ID : UInt32
  msg : CANMessage
  callback : ID &&& 0x0f = canCallback
  id_lt : msg.id.toNat < 2 ^ 29
  len_le : msg.len.toNat ≤ 8

/-- The detector with the messages that it has seen and what it has reported for the last one. -/
structure Watch where
  detector : CANVariationDetector
  seen : List CANMessage
  changes : List Change

def watch (s : Watch) (arrival : Arrival) : Option Watch := do
  let (changes,detector) ← s.detector.event arrival.ID arrival.msg
  return ⟨detector,s.seen ++ [arrival.msg],changes⟩

/-- A new detector, in any memory. -/
def Watch.start (fe : List CANFrameEntry) : Watch := ⟨⟨fe,0⟩,[],[]⟩

/-- The last byte `j` that messages with an identifier have carried. -/
def lastByte (seen : List CANMessage) (id : UInt32) (j : Nat) : Option UInt8 :=
  (seen.filter fun msg => msg.id = id ∧ j < msg.len.toNat).getLast?.map fun msg => msg.byte j

/-- The table has room for its entries, and not two entries for one identifier. -/
structure TableRight (s : Watch) : Prop where
  nFrameEntry_le : s.detector.nFrameEntry ≤ numFrameEntryMax
  nodup : (s.detector.live.map CANFrameEntry.id).Nodup

/-- What is reported for a message: the bytes that differ from the last byte in their place. -/
def ChangesRight (s : Watch) (arrival : Arrival) (s' : Watch) : Prop :=
  ∀ change, change ∈ s'.changes ↔
    change.id = arrival.msg.id ∧ change.j < arrival.msg.len.toNat ∧
      change.value = arrival.msg.byte change.j ∧
      ∃ last, lastByte s.seen arrival.msg.id change.j = some last ∧ last ≠ change.value

/-- A message that the search finds brings no byte for the first time, or only what the entry
happens to hold; one that it does not find has room, and the entry is the only one for the
identifier that is stored. -/
def Recognised (s : Watch) (arrival : Arrival) : Prop :=
  match s.detector.search arrival.msg with
  | some i => ∀ entry, s.detector.fe[i]? = some entry → ∀ j, j < arrival.msg.len.toNat →
      lastByte s.seen arrival.msg.id j = none → entry.data.getD j 0 = arrival.msg.byte j
  | none => s.detector.nFrameEntry < numFrameEntryMax ∧
      arrival.msg.id.toUInt16 ∉ s.detector.live.map CANFrameEntry.id

section Bytes

variable {msg : CANMessage}

/-- The loop from byte `j` on reports the bytes that differ. -/
theorem mem_compareBytes {left j : Nat} {data : List UInt8} {change : Change} :
    change ∈ (compareBytes msg left j data).1 ↔
      change.id = msg.id ∧ (j ≤ change.j ∧ change.j < j + left) ∧
        change.value = msg.byte change.j ∧ data.getD change.j 0 ≠ msg.byte change.j := by
  induction left generalizing j data with
  | zero =>
    rw [compareBytes]
    exact iff_of_false List.not_mem_nil fun h => by omega
  | succ left ih =>
    -- Behind byte `j` the bytes of the entry are the old ones.
    have hbehind (data' : List UInt8)
        (hsame : ∀ k, j + 1 ≤ k → data'.getD k 0 = data.getD k 0) :
        change ∈ (compareBytes msg left (j + 1) data').1 ↔
          change.id = msg.id ∧ (j + 1 ≤ change.j ∧ change.j < j + (left + 1)) ∧
            change.value = msg.byte change.j ∧ data.getD change.j 0 ≠ msg.byte change.j := by
      rw [ih]
      constructor
      · rintro ⟨hid,hj,hvalue,hne⟩
        rw [hsame _ hj.1] at hne
        exact ⟨hid,by omega,hvalue,hne⟩
      · rintro ⟨hid,hj,hvalue,hne⟩
        rw [← hsame _ hj.1] at hne
        exact ⟨hid,by omega,hvalue,hne⟩
    rw [compareBytes]
    by_cases hdiffer : data.getD j 0 ≠ msg.byte j
    · rw [if_pos hdiffer]
      dsimp only
      rw [List.mem_cons,hbehind]
      · constructor
        · rintro (rfl | ⟨hid,hj,hvalue,hne⟩)
          · exact ⟨rfl,by dsimp only; omega,rfl,hdiffer⟩
          · exact ⟨hid,by omega,hvalue,hne⟩
        · rintro ⟨hid,hj,hvalue,hne⟩
          by_cases hhere : change.j = j
          · left
            obtain ⟨id,k,value⟩ := change
            simp only at hid hhere hvalue
            rw [hid,hhere,hvalue,hhere]
          · exact .inr ⟨hid,by omega,hvalue,hne⟩
      · intro k hk
        simp only [List.getD_eq_getElem?_getD]
        rw [List.getElem?_set_ne (by omega)]
    · rw [if_neg hdiffer,hbehind data fun _ _ => rfl]
      constructor
      · rintro ⟨hid,hj,hvalue,hne⟩
        exact ⟨hid,by omega,hvalue,hne⟩
      · rintro ⟨hid,hj,hvalue,hne⟩
        have hother : change.j ≠ j := by
          intro hhere
          rw [hhere] at hne
          exact hdiffer hne
        exact ⟨hid,by omega,hvalue,hne⟩

/-- Behind the loop the entry has the bytes of the message. -/
theorem getD_compareBytes {left j : Nat} {data : List UInt8} (hj : j + left ≤ data.length)
    (k : Nat) : (compareBytes msg left j data).2.getD k 0 =
      if j ≤ k ∧ k < j + left then msg.byte k else data.getD k 0 := by
  induction left generalizing j data with
  | zero =>
    rw [compareBytes,if_neg (by omega)]
  | succ left ih =>
    have hhere : (if data.getD j 0 ≠ msg.byte j then data.set j (msg.byte j) else data).getD k 0 =
        if k = j then msg.byte k else data.getD k 0 := by
      by_cases hk : k = j
      · subst hk
        rw [if_pos rfl]
        split_ifs with hdiffer
        · rw [List.getD_eq_getElem?_getD,List.getElem?_set_self (by omega)]
          rfl
        · exact not_not.mp hdiffer
      · rw [if_neg hk]
        split_ifs with hdiffer
        · simp only [List.getD_eq_getElem?_getD]
          rw [List.getElem?_set_ne (by omega)]
        · rfl
    have hstep : (compareBytes msg (left + 1) j data).2 = (compareBytes msg left (j + 1)
        (if data.getD j 0 ≠ msg.byte j then data.set j (msg.byte j) else data)).2 := by
      rw [compareBytes]
      split_ifs <;> rfl
    rw [hstep,ih,hhere]
    · by_cases hk : k = j
      · rw [if_neg (by omega),if_pos hk,if_pos (by omega)]
      · rw [if_neg hk]
        split_ifs <;> first | rfl | omega
    · split_ifs
      · rw [List.length_set]
        omega
      · omega

theorem getD_compared (entry : CANFrameEntry) (hlen : msg.len.toNat ≤ 8) (k : Nat) :
    (entry.compared msg).data.getD k 0 =
      if k < msg.len.toNat then msg.byte k else entry.data.getD k 0 := by
  rw [CANFrameEntry.compared,getD_compareBytes (by rw [entry.data_length]; omega)]
  simp only [Nat.zero_le,true_and,Nat.zero_add]

/-- An entry begins with the bytes of its message, and what its memory held behind them. -/
theorem getD_insert (entry : CANFrameEntry) {k : Nat} (hk : k < msg.len.toNat)
    (hlen : msg.len.toNat ≤ 8) : (entry.insert msg).data.getD k 0 = msg.byte k := by
  have hlength : k < (msg.data.take msg.len.toNat).length := by
    rw [List.length_take,msg.data_length]
    omega
  rw [CANFrameEntry.insert,List.getD_append _ _ _ _ hlength,CANMessage.byte,
    List.getD_eq_getElem?_getD,List.getElem?_take_of_lt hk,List.getD_eq_getElem?_getD]

theorem lastByte_concat (seen : List CANMessage) (msg : CANMessage) (id : UInt32) (j : Nat) :
    lastByte (seen ++ [msg]) id j =
      if msg.id = id ∧ j < msg.len.toNat then some (msg.byte j) else lastByte seen id j := by
  rw [lastByte,lastByte,List.filter_append]
  by_cases hcarried : msg.id = id ∧ j < msg.len.toNat
  · simp [hcarried]
  · simp [hcarried]

/-- A byte has been carried by a message. -/
theorem exists_of_lastByte {seen : List CANMessage} {id : UInt32} {j : Nat} {last : UInt8}
    (h : lastByte seen id j = some last) : ∃ msg ∈ seen, msg.id = id := by
  obtain ⟨msg,hmsg,-⟩ := Option.map_eq_some_iff.mp h
  obtain ⟨hmem,hcarried⟩ := List.mem_filter.mp (List.mem_of_getLast? hmsg)
  rw [decide_eq_true_iff] at hcarried
  exact ⟨msg,hmem,hcarried.1⟩

theorem matches_iff {entry : CANFrameEntry} (hid : msg.id.toNat < 2 ^ 29) :
    entry.Matches msg ↔ msg.id = entry.id.toUInt32 := by
  have hint : msg.id.toBitVec.toInt = msg.id.toNat :=
    BitVec.toInt_eq_toNat_of_lt (by rw [UInt32.toNat_toBitVec]; omega)
  rw [CANFrameEntry.Matches,hint,Nat.cast_inj,← UInt16.toNat_toUInt32,UInt32.toNat_inj]
  exact eq_comm

end Bytes

/-- How the table follows what has been seen, as long as everything has been right. -/
structure Tracks (s : Watch) : Prop where
  fe_length : s.detector.fe.length = numFrameEntryMax
  tracked : ∀ entry ∈ s.detector.live, ∀ j last,
    lastByte s.seen entry.id.toUInt32 j = some last → entry.data.getD j 0 = last
  known : ∀ msg ∈ s.seen, msg.id.toUInt16 ∈ s.detector.live.map CANFrameEntry.id

section Steps

variable {s : Watch} {arrival : Arrival} {i : Nat}

theorem search_some (h : s.detector.search arrival.msg = some i) :
    ∃ entry, s.detector.live[i]? = some entry ∧ s.detector.fe[i]? = some entry ∧
      arrival.msg.id = entry.id.toUInt32 := by
  obtain ⟨hi,hmatches,-⟩ := List.findIdx?_eq_some_iff_getElem.mp h
  have hlive := List.getElem?_eq_getElem hi
  refine ⟨_,hlive,?_,(matches_iff arrival.id_lt).mp (decide_eq_true_iff.mp hmatches)⟩
  rw [← hlive,CANVariationDetector.live,List.getElem?_take_of_lt]
  exact lt_of_lt_of_le hi (List.length_take_le _ _)

theorem search_none (h : s.detector.search arrival.msg = none) :
    ∀ entry ∈ s.detector.live, arrival.msg.id ≠ entry.id.toUInt32 := by
  intro entry hmem hid
  have hnot := List.findIdx?_eq_none_iff.mp h entry hmem
  rw [decide_eq_false_iff_not,matches_iff arrival.id_lt] at hnot
  exact hnot hid

/-- A message whose identifier is found: the entry is brought up to date. -/
theorem watch_found (hsearch : s.detector.search arrival.msg = some i) {entry : CANFrameEntry}
    (hentry : s.detector.fe[i]? = some entry) :
    watch s arrival = some ⟨{ s.detector with
      fe := s.detector.fe.set i (entry.compared arrival.msg) },s.seen ++ [arrival.msg],
      (compareBytes arrival.msg arrival.msg.len.toNat 0 entry.data).1⟩ := by
  rw [watch,CANVariationDetector.event,if_pos arrival.callback,hsearch]
  simp only [hentry,Option.bind_eq_bind,Option.bind_some]
  rfl

/-- A message whose identifier is not found: an entry is added, if there is one. -/
theorem watch_new (hsearch : s.detector.search arrival.msg = none) :
    watch s arrival = (s.detector.fe[s.detector.nFrameEntry]?).map fun entry =>
      ⟨⟨s.detector.fe.set s.detector.nFrameEntry (entry.insert arrival.msg),
        s.detector.nFrameEntry + 1⟩,s.seen ++ [arrival.msg],[]⟩ := by
  rw [watch,CANVariationDetector.event,if_pos arrival.callback,hsearch]
  cases s.detector.fe[s.detector.nFrameEntry]? <;> rfl

theorem live_set (fe : List CANFrameEntry) (n : Nat) (entry : CANFrameEntry) :
    (CANVariationDetector.mk (fe.set i entry) n).live = (fe.take n).set i entry := List.take_set

theorem live_new {fe : List CANFrameEntry} {n : Nat} (hn : n < fe.length)
    (entry : CANFrameEntry) :
    (CANVariationDetector.mk (fe.set n entry) (n + 1)).live = fe.take n ++ [entry] := by
  have hlt : n < (fe.set n entry).length := by rwa [List.length_set]
  rw [CANVariationDetector.live,← List.take_append_getElem hlt,List.getElem_set_self,
    List.take_set_of_le (le_refl n)]

/-- The bytes reported are right when the bytes carried for the first time are in the entry
already. -/
theorem changes_found_iff (htracks : Tracks s) {entry : CANFrameEntry}
    (hmem : entry ∈ s.detector.live) (hid : arrival.msg.id = entry.id.toUInt32)
    {s' : Watch} (hchanges : s'.changes =
      (compareBytes arrival.msg arrival.msg.len.toNat 0 entry.data).1) :
    ChangesRight s arrival s' ↔ ∀ j, j < arrival.msg.len.toNat →
      lastByte s.seen arrival.msg.id j = none → entry.data.getD j 0 = arrival.msg.byte j := by
  rw [ChangesRight,hchanges]
  constructor
  · intro hright j hj hfirst
    by_contra hne
    obtain ⟨-,-,-,last,hlast,-⟩ := (hright ⟨arrival.msg.id,j,arrival.msg.byte j⟩).mp
      (mem_compareBytes.mpr ⟨rfl,by dsimp only; omega,rfl,hne⟩)
    rw [hfirst] at hlast
    cases hlast
  · intro hfirst change
    rw [mem_compareBytes]
    constructor
    · rintro ⟨hchange,hj,hvalue,hne⟩
      refine ⟨hchange,by omega,hvalue,?_⟩
      cases hlast : lastByte s.seen arrival.msg.id change.j with
      | none => exact absurd (hfirst _ (by omega) hlast) hne
      | some last =>
        refine ⟨last,rfl,?_⟩
        rw [hid] at hlast
        rw [hvalue,← htracks.tracked entry hmem _ _ hlast]
        exact hne
    · rintro ⟨hchange,hj,hvalue,last,hlast,hne⟩
      refine ⟨hchange,by omega,hvalue,?_⟩
      rw [hid] at hlast
      rw [htracks.tracked entry hmem _ _ hlast,← hvalue]
      exact hne

theorem known_concat {ids : List UInt16}
    (hknown : ∀ msg ∈ s.seen, msg.id.toUInt16 ∈ ids) (hlast : arrival.msg.id.toUInt16 ∈ ids) :
    ∀ msg ∈ s.seen ++ [arrival.msg], msg.id.toUInt16 ∈ ids := by
  intro msg hmem
  rcases List.mem_append.mp hmem with hmem | hmem
  · exact hknown msg hmem
  · rw [List.mem_singleton.mp hmem]
    exact hlast

theorem map_id_set {entry other : CANFrameEntry} (hlive : s.detector.live[i]? = some entry)
    (hsame : other.id = entry.id) :
    (s.detector.live.set i other).map CANFrameEntry.id =
      s.detector.live.map CANFrameEntry.id := by
  obtain ⟨hi,-⟩ := List.getElem?_eq_some_iff.mp hlive
  apply List.ext_getElem?
  intro k
  rw [List.getElem?_map,List.getElem?_map]
  by_cases hk : i = k
  · subst hk
    rw [List.getElem?_set_self hi,hlive,Option.map_some,Option.map_some,hsame]
  · rw [List.getElem?_set_ne hk]

/-- The entries have the last bytes when the entry that is found has been brought up to date. -/
theorem tracked_compared (hright : TableRight s) (htracks : Tracks s) {entry : CANFrameEntry}
    (hlive : s.detector.live[i]? = some entry) (hid : arrival.msg.id = entry.id.toUInt32) :
    ∀ other ∈ s.detector.live.set i (entry.compared arrival.msg), ∀ j last,
      lastByte (s.seen ++ [arrival.msg]) other.id.toUInt32 j = some last →
        other.data.getD j 0 = last := by
  intro other hother j last hlast
  rw [lastByte_concat] at hlast
  obtain ⟨hi,-⟩ := List.getElem?_eq_some_iff.mp hlive
  obtain ⟨k,hk⟩ := List.mem_iff_getElem?.mp hother
  by_cases hik : i = k
  · subst hik
    rw [List.getElem?_set_self hi] at hk
    cases hk
    rw [getD_compared entry arrival.len_le]
    by_cases hj : j < arrival.msg.len.toNat
    · rw [if_pos ⟨hid,hj⟩] at hlast
      rw [if_pos hj]
      exact Option.some.inj hlast
    · rw [if_neg fun h => hj h.2] at hlast
      rw [if_neg hj]
      exact htracks.tracked entry (List.mem_of_getElem? hlive) j last hlast
  · rw [List.getElem?_set_ne hik] at hk
    have hdistinct : arrival.msg.id ≠ other.id.toUInt32 := by
      intro hsame
      apply hik
      rw [← List.getElem?_inj (by rwa [List.length_map]) hright.nodup,List.getElem?_map,
        List.getElem?_map,hlive,hk]
      simp only [Option.map_some]
      rw [← UInt16.toUInt16_toUInt32 entry.id,← hid,hsame,UInt16.toUInt16_toUInt32]
    rw [if_neg fun h => hdistinct h.1] at hlast
    exact htracks.tracked other (List.mem_of_getElem? hk) j last hlast

/-- A message whose identifier is found keeps the table right and followed. -/
theorem found_spec (hright : TableRight s) (htracks : Tracks s)
    (hsearch : s.detector.search arrival.msg = some i) :
    ∃ entry s', s.detector.fe[i]? = some entry ∧ watch s arrival = some s' ∧
      TableRight s' ∧ Tracks s' ∧
      (ChangesRight s arrival s' ↔ ∀ j, j < arrival.msg.len.toNat →
        lastByte s.seen arrival.msg.id j = none →
          entry.data.getD j 0 = arrival.msg.byte j) := by
  obtain ⟨entry,hlive,hentry,hid⟩ := search_some hsearch
  have hmem : entry ∈ s.detector.live := List.mem_of_getElem? hlive
  have hids : (s.detector.live.set i (entry.compared arrival.msg)).map CANFrameEntry.id =
      s.detector.live.map CANFrameEntry.id := map_id_set hlive rfl
  refine ⟨entry,_,hentry,watch_found hsearch hentry,⟨hright.nFrameEntry_le,?_⟩,⟨?_,?_,?_⟩,
    changes_found_iff htracks hmem hid rfl⟩
  · rw [live_set,← CANVariationDetector.live,hids]
    exact hright.nodup
  · rw [List.length_set]
    exact htracks.fe_length
  · rw [live_set,← CANVariationDetector.live]
    exact tracked_compared hright htracks hlive hid
  · rw [live_set,← CANVariationDetector.live,hids]
    refine known_concat htracks.known (List.mem_map.mpr ⟨entry,hmem,?_⟩)
    rw [hid,UInt16.toUInt16_toUInt32]

/-- A table that grows stays right exactly when the identifier of the new entry is not in it. -/
theorem tableRight_grown_iff (hright : TableRight s) {s' : Watch} {entry : CANFrameEntry}
    (hlive : s'.detector.live = s.detector.live ++ [entry])
    (hle : s'.detector.nFrameEntry ≤ numFrameEntryMax) :
    TableRight s' ↔ entry.id ∉ s.detector.live.map CANFrameEntry.id := by
  constructor
  · intro hafter hold
    have hnodup := hafter.nodup
    rw [hlive,List.map_append] at hnodup
    exact (List.nodup_append.mp hnodup).2.2 _ hold _ (List.mem_singleton.mpr rfl) rfl
  · intro hfresh
    refine ⟨hle,?_⟩
    rw [hlive,List.map_append]
    refine List.nodup_append.mpr ⟨hright.nodup,List.nodup_singleton _,?_⟩
    intro id hold id' hnew heq
    rw [heq,List.mem_singleton.mp hnew] at hold
    exact hfresh hold

/-- Nothing has been seen of an identifier that would be stored in the same way. -/
theorem stored_ne_of_lastByte (htracks : Tracks s)
    (hfresh : arrival.msg.id.toUInt16 ∉ s.detector.live.map CANFrameEntry.id) {id : UInt32}
    {j : Nat} {last : UInt8} (hlast : lastByte s.seen id j = some last) :
    id.toUInt16 ≠ arrival.msg.id.toUInt16 := by
  obtain ⟨msg,hmem,rfl⟩ := exists_of_lastByte hlast
  intro hsame
  rw [← hsame] at hfresh
  exact hfresh (htracks.known msg hmem)

/-- The entries have the last bytes when one has been added for a message that is not found. -/
theorem tracked_grown (htracks : Tracks s) (hsearch : s.detector.search arrival.msg = none)
    (hfresh : arrival.msg.id.toUInt16 ∉ s.detector.live.map CANFrameEntry.id)
    (entry : CANFrameEntry) :
    ∀ other ∈ s.detector.live ++ [entry.insert arrival.msg],∀ j last,
      lastByte (s.seen ++ [arrival.msg]) other.id.toUInt32 j = some last →
        other.data.getD j 0 = last := by
  intro other hmem j last hlast
  rw [lastByte_concat] at hlast
  rcases List.mem_append.mp hmem with hold | hnew
  · rw [if_neg fun h => search_none hsearch other hold h.1] at hlast
    exact htracks.tracked other hold j last hlast
  · cases List.mem_singleton.mp hnew
    by_cases hcarried : arrival.msg.id = arrival.msg.id.toUInt16.toUInt32 ∧
        j < arrival.msg.len.toNat
    · rw [CANFrameEntry.insert,if_pos hcarried] at hlast
      rw [getD_insert _ hcarried.2 arrival.len_le]
      exact Option.some.inj hlast
    · rw [CANFrameEntry.insert,if_neg hcarried] at hlast
      exact absurd (UInt16.toUInt16_toUInt32 _) (stored_ne_of_lastByte htracks hfresh hlast)

/-- A message whose identifier is not found leaves the table right when the identifier that is
stored is not in it. -/
theorem new_spec (hright : TableRight s) (htracks : Tracks s)
    (hsearch : s.detector.search arrival.msg = none)
    (hroom : s.detector.nFrameEntry < numFrameEntryMax) :
    ∃ s', watch s arrival = some s' ∧
      (TableRight s' ↔
        arrival.msg.id.toUInt16 ∉ s.detector.live.map CANFrameEntry.id) ∧
      (TableRight s' → ChangesRight s arrival s' ∧ Tracks s') := by
  have hn : s.detector.nFrameEntry < s.detector.fe.length := by
    rw [htracks.fe_length]
    exact hroom
  let entry := s.detector.fe[s.detector.nFrameEntry]
  let s' : Watch := ⟨⟨s.detector.fe.set s.detector.nFrameEntry (entry.insert arrival.msg),
    s.detector.nFrameEntry + 1⟩,s.seen ++ [arrival.msg],[]⟩
  have hstep : watch s arrival = some s' := by
    rw [watch_new hsearch,List.getElem?_eq_getElem hn]
    rfl
  have hlive : s'.detector.live = s.detector.live ++ [entry.insert arrival.msg] :=
    live_new hn (entry.insert arrival.msg)
  have hiff : TableRight s' ↔ arrival.msg.id.toUInt16 ∉ s.detector.live.map CANFrameEntry.id :=
    tableRight_grown_iff hright hlive hroom
  refine ⟨s',hstep,hiff,fun hafter => ?_⟩
  have hfresh := hiff.mp hafter
  refine ⟨fun change => iff_of_false List.not_mem_nil ?_,?_,?_,?_⟩
  · rintro ⟨-,-,-,last,hlast,-⟩
    exact stored_ne_of_lastByte htracks hfresh hlast rfl
  · exact List.length_set.trans htracks.fe_length
  · rw [hlive]
    exact tracked_grown htracks hsearch hfresh entry
  · rw [hlive,List.map_append]
    apply known_concat
    · intro msg hmem
      exact List.mem_append_left _ (htracks.known msg hmem)
    · exact List.mem_append_right _ (List.mem_singleton.mpr rfl)

/-- An entry that is added has had room. -/
theorem room_of_watch (htracks : Tracks s) (hsearch : s.detector.search arrival.msg = none)
    {s' : Watch} (hstep : watch s arrival = some s') :
    s.detector.nFrameEntry < numFrameEntryMax := by
  rw [watch_new hsearch] at hstep
  obtain ⟨entry,hentry,-⟩ := Option.map_eq_some_iff.mp hstep
  rw [← htracks.fe_length]
  exact (List.getElem?_eq_some_iff.mp hentry).1

/-- A step is right, and leaves the table right, exactly when the message is recognised. -/
theorem watch_iff (htracks : Tracks s) (hright : TableRight s) :
    (∃ s', watch s arrival = some s' ∧ TableRight s' ∧ ChangesRight s arrival s') ↔
      Recognised s arrival := by
  rw [Recognised]
  cases hsearch : s.detector.search arrival.msg with
  | some i =>
    obtain ⟨entry,s₁,hentry,hstep,htable,-,hchanges⟩ := found_spec hright htracks hsearch
    simp only [hentry,Option.some.injEq,forall_eq',hstep]
    rw [← hchanges]
    constructor
    · rintro ⟨s',rfl,-,hreported⟩
      exact hreported
    · intro hreported
      exact ⟨s₁,rfl,htable,hreported⟩
  | none =>
    constructor
    · rintro ⟨s',hstep,htable,-⟩
      have hroom := room_of_watch htracks hsearch hstep
      obtain ⟨s₁,hstep₁,hiff,-⟩ := new_spec hright htracks hsearch hroom
      cases hstep.symm.trans hstep₁
      exact ⟨hroom,hiff.mp htable⟩
    · rintro ⟨hroom,hfresh⟩
      obtain ⟨s₁,hstep₁,hiff,hafter⟩ := new_spec hright htracks hsearch hroom
      have htable := hiff.mpr hfresh
      exact ⟨s₁,hstep₁,htable,(hafter htable).1⟩

theorem tracks_of_watch (htracks : Tracks s) (hright : TableRight s) {s' : Watch}
    (hstep : watch s arrival = some s') (htable : TableRight s') : Tracks s' := by
  cases hsearch : s.detector.search arrival.msg with
  | some i =>
    obtain ⟨-,s₁,-,hstep₁,-,hafter,-⟩ := found_spec hright htracks hsearch
    cases hstep.symm.trans hstep₁
    exact hafter
  | none =>
    obtain ⟨s₁,hstep₁,-,hafter⟩ :=
      new_spec hright htracks hsearch (room_of_watch htracks hsearch hstep)
    cases hstep.symm.trans hstep₁
    exact (hafter htable).2

end Steps

/-- All along a run of messages the table is right and exactly the changed bytes are reported
exactly when every message is recognised. -/
theorem variation_right_iff (fe : List CANFrameEntry) (hfe : fe.length = numFrameEntryMax)
    (arrivals : List Arrival) :
    Transition.Keeps watch TableRight ChangesRight (Watch.start fe) arrivals ↔
      Transition.Finds watch Recognised (Watch.start fe) arrivals := by
  refine Transition.keeps_iff_finds_under (A := Tracks) ?_ ?_ arrivals ?_ ?_
  · intro s arrival s' htracks hright hstep htable _
    exact tracks_of_watch htracks hright hstep htable
  · intro s arrival htracks hright
    exact watch_iff htracks hright
  · refine ⟨hfe,fun entry hmem => ?_,fun msg hmem => ?_⟩
    · cases hmem
    · cases hmem
  · exact ⟨Nat.zero_le _,List.nodup_nil⟩

section

/-- The arrival of a message with one byte. -/
def oneByte (id : UInt32) (value : UInt8) (hid : id.toNat < 2 ^ 29) : Arrival where
  ID := canCallback
  msg := ⟨id,value :: List.replicate 7 0,1,.CANExtended,.CANData,rfl⟩
  callback := by decide
  id_lt := hid
  len_le := by
    change (1 : UInt8).toNat ≤ 8
    decide

/-- A table in cleared memory. -/
def clearedTable : List CANFrameEntry :=
  List.replicate numFrameEntryMax ⟨0,List.replicate 8 0,List.length_replicate⟩

theorem variation_right_iff_twice :
    Transition.Keeps watch TableRight ChangesRight (Watch.start clearedTable)
      [oneByte 0x123 1 (by decide),oneByte 0x123 2 (by decide)] := by
  refine (variation_right_iff clearedTable List.length_replicate _).mpr ?_
  refine Transition.finds_cons.mpr ⟨⟨by decide,List.not_mem_nil⟩,fun s₁ hfirst => ?_⟩
  refine Transition.finds_cons.mpr ⟨?_,fun s₂ _ => ?_⟩
  · cases hfirst
    intro entry hentry j hj hunseen
    cases Nat.lt_one_iff.mp hj
    cases hunseen
  · intro before input hbefore
    exact absurd hbefore (by simp)

/-- Two messages with an identifier of 29 bits. -/
def wideIds : List Arrival :=
  [oneByte 0x18DA10F1 1 (by decide)] ++ [oneByte 0x18DA10F1 2 (by decide)]

/-- The identifier is inserted twice, and the change of its byte is not reported. -/
theorem wideIds_not_right :
    (wideIds.foldlM watch (Watch.start clearedTable)).map
        (fun s => (s.detector.live.map CANFrameEntry.id,s.changes)) =
      some ([0x10F1,0x10F1],[]) ∧
    ¬Transition.Keeps watch TableRight ChangesRight (Watch.start clearedTable) wideIds := by
  have hrun : (wideIds.foldlM watch (Watch.start clearedTable)).map
      (fun s => (s.detector.live.map CANFrameEntry.id,s.changes)) =
        some ([0x10F1,0x10F1],[]) := by decide +kernel
  refine ⟨hrun,fun hkeeps => ?_⟩
  obtain ⟨s,hend,htable⟩ := Transition.Keeps.reaches hkeeps
  rw [wideIds,hend] at hrun
  have hnodup := htable.nodup
  rw [(Prod.mk.inj (Option.some.inj hrun)).1] at hnodup
  exact absurd hnodup (by decide)

end

end Pyrn.Can
