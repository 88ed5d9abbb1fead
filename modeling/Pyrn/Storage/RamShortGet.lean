import Pyrn.Storage.RamCircBuffRefinement

/-!
# `Get` into a buffer that is too short

`Get` copies the record that its header announces, whatever length it is given, and moves the
counters by the shorter of the two.
-/

namespace Pyrn.Storage

namespace RamCircBuff

/-- What the caller of `Get` relies on: the copies stay in its buffer, and the ring holds the
records behind the oldest one. -/
def GetKeeps (st : RamCircBuff) (rest : List Record) (buffer : List UInt8) (length : Int) : Prop :=
  ∃ ret filled st', st.get buffer length = some (ret,filled,st') ∧ Holds st' rest

/-- `Get` reads the header that `Probe` reads. -/
theorem getHeader_of_probe {st : RamCircBuff} {s : Int} (hcurrent : st.currSz ≠ 0)
    (hprobe : st.probe = some s) : ∃ pRead, st.getHeader = some (s,pRead) := by
  rw [probe,if_pos hcurrent] at hprobe
  rw [getHeader]
  split at hprobe
  · rename_i hwhole
    obtain ⟨header,hheader,h⟩ := Option.bind_eq_some_iff.mp hprobe
    cases h
    rw [if_pos hwhole,hheader]
    exact ⟨_,rfl⟩
  · rename_i hsplit
    obtain ⟨low,hlow,h⟩ := Option.bind_eq_some_iff.mp hprobe
    obtain ⟨high,hhigh,h⟩ := Option.bind_eq_some_iff.mp h
    cases h
    rw [if_neg hsplit]
    simp only [hlow,hhigh,Option.bind_eq_bind,Option.bind_some]
    exact ⟨_,rfl⟩

/-- In any state the copy of `Get` leaves a buffer that is shorter than the record. -/
theorem get_overruns {st : RamCircBuff} {s : Int} {buffer : List UInt8}
    (hcurrent : st.currSz ≠ 0) (hprobe : st.probe = some s) (hshort : buffer.length < s)
    (length : Int) : st.get buffer length = none := by
  obtain ⟨p,hheader⟩ := getHeader_of_probe hcurrent hprobe
  rw [get,if_pos hcurrent,hheader]
  simp only [Option.bind_eq_bind,Option.bind_some]
  split
  · refine Option.bind_eq_none_iff.mpr fun data hdata => ?_
    have hlength := Buffer.length_of_load hdata
    rw [Buffer.store_eq_none (by omega)]
    rfl
  · refine Option.bind_eq_none_iff.mpr fun low hlow => ?_
    refine Option.bind_eq_none_iff.mpr fun filled hfilled => ?_
    refine Option.bind_eq_none_iff.mpr fun high hhigh => ?_
    have hlength := Buffer.length_of_load hhigh
    have hsame : filled.length = buffer.length := by
      obtain ⟨hfits,rfl⟩ := Buffer.store_eq_some_iff.mp hfilled
      exact Buffer.splice_length (by omega)
    rw [Buffer.store_eq_none (by omega)]
    rfl

/-- In every state, and so in every one that calls lead to, `Get` with a length below the size of
the oldest record copies past a buffer of that length; and the ring that it leaves does not hold
the remaining records. -/
theorem get_short_never {st : RamCircBuff} {s length : Int} (hprobe : st.probe = some s)
    (hshort : length < s) :
    (∀ buffer : List UInt8, buffer.length = length → st.get buffer length = none) ∧
      ∀ record rest buffer, Holds st (record :: rest) → ¬st.GetKeeps rest buffer length := by
  refine ⟨fun buffer hbuffer => ?_,?_⟩
  · have hcurrent : st.currSz ≠ 0 := by
      intro hnone
      rw [probe,if_neg (not_not.mpr hnone)] at hprobe
      cases hprobe
      omega
    exact get_overruns hcurrent hprobe (by omega) length
  · rintro record rest buffer hst ⟨ret,filled,st',hget,hrest⟩
    have hsize : (record.length : Int) = s :=
      Option.some.inj ((probe_cons hst).symm.trans hprobe)
    have hcurrent : st.currSz ≠ 0 := by
      rw [(holds_bounds hst).2.2.1,used_cons]
      omega
    by_cases hroom : record.length ≤ buffer.length
    · obtain ⟨st'',hget',hcurrent'⟩ := get_short hst (by omega : length < record.length) hroom
      cases hget'.symm.trans hget
      have hused := (holds_bounds hrest).2.2.1
      omega
    · rw [get_overruns hcurrent hprobe (by omega)] at hget
      cases hget

/-- One record of three bytes, and a buffer of two. -/
theorem get_short_never_three : ∃ st, (RamCircBuff.new 16).put [1,2,3] 3 = some (3,st) ∧
    Holds st [[1,2,3]] ∧ st.get [0,0] 2 = none ∧ ¬st.GetKeeps [] [0,0,0] 2 := by
  have hnew : Holds (.new 16) [] := holds_new (by decide) (by decide)
  obtain ⟨st,hput,-,hst⟩ := @put_accepts _ _ hnew [1,2,3] 3 (by decide) (by decide)
  obtain ⟨hcopy,hkeeps⟩ := @get_short_never st 3 2 (probe_cons hst) (by decide)
  exact ⟨st,hput,hst,hcopy [0,0] rfl,hkeeps [1,2,3] [] [0,0,0] hst⟩

/-- Records of eight and two bytes: a buffer of four is overrun, and where there is memory behind
it the next `Probe` takes the last four bytes of the first record for a header. -/
theorem get_short_fails :
    Transition.run RamCircBuff.call (RamCircBuff.new 32)
        [.put [1,2,3,4,5,6,7,8] 8,.put [9,9] 2,.get [0,0,0,0] 4] = none ∧
      (Transition.run RamCircBuff.call (RamCircBuff.new 32)
        [.put [1,2,3,4,5,6,7,8] 8,.put [9,9] 2,.get [0,0,0,0,0,0,0,0,0] 4,.probe]).map Prod.fst =
        some [⟨8,[1,2,3,4,5,6,7,8]⟩,⟨2,[9,9]⟩,⟨4,[1,2,3,4,5,6,7,8,0]⟩,⟨134678021,[]⟩] := by
  decide +kernel

end RamCircBuff

end Pyrn.Storage
