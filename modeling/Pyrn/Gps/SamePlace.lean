import Pyrn.Gps.Vouched

/-!
# Two runs through one sentence

Two parsers that read the same sentence are at the same place of it, whatever the buffer of the
term has kept from the sentences before: an empty checksum term may match in one of them only, but
then the data of the sentence is not good yet, and nothing is published.
-/

namespace Pyrn.Gps

namespace TinyGPS

/-- Two parsers at the same place of the same sentence. -/
structure SamePlace (gps gps' : TinyGPS) : Prop where
  parity : gps.parity = gps'.parity
  isChecksumTerm : gps.isChecksumTerm = gps'.isChecksumTerm
  sentenceType : gps.sentenceType = gps'.sentenceType
  termNumber : gps.termNumber = gps'.termNumber
  termOffset : gps.termOffset = gps'.termOffset
  gpsDataGood : gps.gpsDataGood = gps'.gpsDataGood
  term : ∀ i < gps.termOffset,gps.term i = gps'.term i
  second : gps.gpsDataGood = true → gps.term 1 = gps'.term 1

theorem takeWhile_append_stop {α : Type*} {p : α → Bool} {x : α} (hx : p x = false)
    (front back : List α) : (front ++ x :: back).takeWhile p = front.takeWhile p := by
  induction front with
  | nil => rw [List.nil_append,List.takeWhile_cons,hx]; rfl
  | cons a front ih => rw [List.cons_append,List.takeWhile_cons,List.takeWhile_cons,ih]

section Steps

variable {gps gps' : TinyGPS} {c : UInt8}

theorem samePlace_beginSentence (gps gps' : TinyGPS) :
    SamePlace gps.beginSentence gps'.beginSentence :=
  ⟨rfl,rfl,rfl,rfl,rfl,rfl,fun _ h => absurd h (Nat.not_lt_zero _),fun h => by cases h⟩

/-- The string of a term ends at the zero byte, in front of what the buffer has kept. -/
theorem text_of_zero {n : Nat} (hn : n < termSize) (hzero : gps.term n = 0) :
    gps.text = ((List.range n).map gps.term).takeWhile (· ≠ 0) := by
  obtain ⟨more,hmore⟩ := Nat.exists_eq_add_of_lt hn
  have hsize : termSize = n + 1 + more := by omega
  have hsplit : (List.range termSize).map gps.term = (List.range n).map gps.term ++
      gps.term n :: ((List.range more).map (n + 1 + ·)).map gps.term := by
    rw [hsize,List.range_add,List.range_succ,List.map_append,List.map_append,List.append_assoc]
    rfl
  rw [text,hsplit]
  exact takeWhile_append_stop (by rw [hzero]; rfl) _ _

theorem SamePlace.ended (h : SamePlace gps gps') (c : UInt8) :
    SamePlace (gps.ended c) (gps'.ended c) := by
  have hparity := h.parity
  have hoffset := h.termOffset
  refine ⟨?_,h.isChecksumTerm,h.sentenceType,h.termNumber,hoffset,h.gpsDataGood,?_,?_⟩
  · simp only [TinyGPS.ended,hparity]
  · intro i hi
    have hin : i < gps.termOffset := hi
    simp only [TinyGPS.ended]
    rw [Function.update_of_ne hin.ne,Function.update_of_ne (hoffset ▸ hin.ne)]
    exact h.term i hin
  · intro hgood
    simp only [TinyGPS.ended]
    rw [← hoffset]
    by_cases hone : 1 = gps.termOffset
    · rw [← hone,Function.update_self,Function.update_self]
    · rw [Function.update_of_ne hone,Function.update_of_ne hone]
      exact h.second hgood

/-- A parser at the end of a term. -/
structure AtEnd (gps : TinyGPS) : Prop where
  inside : gps.termOffset < termSize
  zero : gps.term gps.termOffset = 0

theorem atEnd_ended (c : UInt8) (h : gps.termOffset < termSize) : AtEnd (gps.ended c) :=
  ⟨h,Function.update_self _ _ _⟩

theorem SamePlace.text (h : SamePlace gps gps') (hend : AtEnd gps) (hend' : AtEnd gps') :
    gps.text = gps'.text := by
  have hzero' := hend'.zero
  rw [← h.termOffset] at hzero'
  rw [text_of_zero hend.inside hend.zero,text_of_zero hend.inside hzero']
  congr 1
  apply List.map_congr_left
  intro i hi
  exact h.term i (List.mem_range.mp hi)

theorem SamePlace.first (h : SamePlace gps gps') (hend : AtEnd gps) (hend' : AtEnd gps') :
    gps.term 0 = gps'.term 0 := by
  rcases Nat.eq_zero_or_pos gps.termOffset with hzero | hpos
  · have hleft := hend.zero
    have hright := hend'.zero
    rw [← h.termOffset,hzero] at hright
    rw [hzero] at hleft
    rw [hleft,hright]
  · exact h.term 0 hpos

/-- After a term that is not empty the second byte of the buffer is one of this sentence. -/
theorem SamePlace.second_of_first (h : SamePlace gps gps') (hend : AtEnd gps)
    (hend' : AtEnd gps') (hfirst : gps.term 0 ≠ 0) : gps.term 1 = gps'.term 1 := by
  have hright := hend'.zero
  rw [← h.termOffset] at hright
  have hleft := hend.zero
  rcases Nat.lt_trichotomy gps.termOffset 1 with hlt | heq | hgt
  · have hzero : gps.termOffset = 0 := by omega
    rw [hzero] at hleft
    exact absurd hleft hfirst
  · rw [heq] at hleft hright
    rw [hleft,hright]
  · exact h.term 1 hgt

/-- No effect on the variables: at most a checksum matches and nothing is published. -/
def Silent (e : Effect) : Prop := e = .idle ∨ e = .matched

theorem SamePlace.termEffect (h : SamePlace gps gps') (hend : AtEnd gps) (hend' : AtEnd gps') :
    gps.termEffect = gps'.termEffect ∨ Silent gps.termEffect ∧ Silent gps'.termEffect := by
  have hfirst := h.first hend hend'
  rw [TinyGPS.termEffect,TinyGPS.termEffect,← h.isChecksumTerm,← h.gpsDataGood]
  by_cases hchecksum : gps.isChecksumTerm = true
  · rw [if_pos hchecksum,if_pos hchecksum]
    by_cases hgood : gps.gpsDataGood = true
    · have hsecond := h.second hgood
      left
      rw [checksum,checksum,hfirst,hsecond,h.parity,h.sentenceType]
    · right
      rw [if_neg hgood]
      constructor
      · split_ifs
        · exact .inr rfl
        · exact .inl rfl
      · split_ifs
        · exact .inr rfl
        · exact .inl rfl
  · left
    rw [if_neg hchecksum,if_neg hchecksum,h.termNumber,h.sentenceType,hfirst,h.text hend hend']

/-- Looking at a checksum does not change the place. -/
theorem termComplete_checksum (h : gps.isChecksumTerm = true) :
    ∃ published gll rmc gga gsv,gps.termComplete.2 =
      { gps with
        published := published
        gllReady := gll
        rmcReady := rmc
        ggaReady := gga
        gsvReady := gsv } := by
  rw [termComplete,if_pos h]
  split_ifs
  · exact ⟨_,_,_,_,_,rfl⟩
  · exact ⟨_,_,_,_,_,rfl⟩
  · exact ⟨_,_,_,_,_,rfl⟩

theorem SamePlace.change (h : SamePlace gps gps') (hsecond : gps.term 1 = gps'.term 1)
    (ch : Change) : SamePlace (gps.change ch) (gps'.change ch) := by
  obtain ⟨hparity,hchecksum,htype,hnumber,hoffset,hgood,hterm,-⟩ := h
  cases ch with
  | set f value => exact ⟨hparity,hchecksum,htype,hnumber,hoffset,hgood,hterm,fun _ => hsecond⟩
  | negate f => exact ⟨hparity,hchecksum,htype,hnumber,hoffset,hgood,hterm,fun _ => hsecond⟩
  | dataGood good =>
    exact ⟨hparity,hchecksum,htype,hnumber,hoffset,rfl,hterm,fun _ => hsecond⟩
  | none => exact ⟨hparity,hchecksum,htype,hnumber,hoffset,hgood,hterm,fun _ => hsecond⟩

theorem SamePlace.termComplete (h : SamePlace gps gps') (hend : AtEnd gps)
    (hend' : AtEnd gps') : SamePlace gps.termComplete.2 gps'.termComplete.2 := by
  by_cases hchecksum : gps.isChecksumTerm = true
  · obtain ⟨published,gll,rmc,gga,gsv,heq⟩ := termComplete_checksum hchecksum
    obtain ⟨published',gll',rmc',gga',gsv',heq'⟩ :=
      termComplete_checksum (h.isChecksumTerm.symm.trans hchecksum)
    rw [heq,heq']
    obtain ⟨hparity,hchecksum,htype,hnumber,hoffset,hgood,hterm,hsecond⟩ := h
    exact ⟨hparity,hchecksum,htype,hnumber,hoffset,hgood,hterm,hsecond⟩
  · have hfirst := h.first hend hend'
    have htext := h.text hend hend'
    rw [TinyGPS.termComplete,TinyGPS.termComplete,← h.isChecksumTerm,if_neg hchecksum,
      if_neg hchecksum,← h.termNumber,← h.sentenceType,← hfirst,← htext]
    split_ifs with hnumber hterm
    · exact ⟨h.parity,rfl,rfl,rfl,h.termOffset,h.gpsDataGood,h.term,h.second⟩
    · exact h.change (h.second_of_first hend hend' hterm.2) _
    · exact h

theorem SamePlace.nextTerm (h : SamePlace gps gps') (c : UInt8) :
    SamePlace (gps.nextTerm c) (gps'.nextTerm c) := by
  have hnumber := h.termNumber
  refine ⟨h.parity,rfl,h.sentenceType,?_,rfl,h.gpsDataGood,fun i hi => ?_,h.second⟩
  · simp only [TinyGPS.nextTerm,hnumber]
  · exact absurd hi (Nat.not_lt_zero i)

theorem SamePlace.storeChar (h : SamePlace gps gps') (c : UInt8) :
    SamePlace (gps.storeChar c) (gps'.storeChar c) := by
  have hoffset := h.termOffset
  have hupdate {i : Nat} (hi : i ≠ gps.termOffset → gps.term i = gps'.term i) :
      Function.update gps.term gps.termOffset c i =
        Function.update gps'.term gps'.termOffset c i := by
    rw [← hoffset]
    by_cases hhere : i = gps.termOffset
    · rw [hhere,Function.update_self,Function.update_self]
    · rw [Function.update_of_ne hhere,Function.update_of_ne hhere]
      exact hi hhere
  refine ⟨h.parity,h.isChecksumTerm,h.sentenceType,h.termNumber,?_,h.gpsDataGood,?_,?_⟩
  · exact congrArg (· + 1) hoffset
  · intro i hi
    have hin : i < gps.termOffset + 1 := hi
    exact hupdate fun hne => h.term i (by omega)
  · exact fun hgood => hupdate fun _ => h.second hgood

theorem SamePlace.addParity (h : SamePlace gps gps') (c : UInt8) :
    SamePlace (gps.addParity c) (gps'.addParity c) := by
  obtain ⟨hparity,hchecksum,htype,hnumber,hoffset,hgood,hterm,hsecond⟩ := h
  exact ⟨congrArg (· ^^^ c) hparity,hchecksum,htype,hnumber,hoffset,hgood,hterm,hsecond⟩

theorem SamePlace.addChar (h : SamePlace gps gps') (c : UInt8) :
    SamePlace (gps.addChar c) (gps'.addChar c) := by
  have hcount {a a' : TinyGPS} (ha : SamePlace a a') :
      SamePlace (if a.isChecksumTerm then a else a.addParity c)
        (if a'.isChecksumTerm then a' else a'.addParity c) := by
    rw [← ha.isChecksumTerm]
    split_ifs
    · exact ha
    · exact ha.addParity c
  rw [TinyGPS.addChar,TinyGPS.addChar,← h.termOffset]
  by_cases hroom : gps.termOffset < termSize - 1
  · rw [if_pos hroom,if_pos hroom]
    exact hcount (h.storeChar c)
  · rw [if_neg hroom,if_neg hroom]
    exact hcount h

/-- The parsers stay at the same place, and what they do to the variables is the same. -/
theorem SamePlace.encode (h : SamePlace gps gps') (c : UInt8) :
    SamePlace (gps.encode c).2 (gps'.encode c).2 ∧
      (gps.effect c = gps'.effect c ∨ Silent (gps.effect c) ∧ Silent (gps'.effect c)) := by
  rw [effect,effect,← h.termOffset]
  by_cases hc : EndsTerm c
  · rw [if_pos hc,if_pos hc]
    by_cases hoffset : gps.termOffset < termSize
    · have hoffset' : gps'.termOffset < termSize := h.termOffset ▸ hoffset
      have hended := h.ended c
      have hend := atEnd_ended c hoffset
      have hend' := atEnd_ended c hoffset'
      rw [if_pos hoffset,if_pos hoffset,encode_endsTerm hc hoffset,encode_endsTerm hc hoffset']
      exact ⟨(hended.termComplete hend hend').nextTerm c,hended.termEffect hend hend'⟩
    · have hoffset' : ¬gps'.termOffset < termSize := h.termOffset ▸ hoffset
      rw [if_neg hoffset,if_neg hoffset,encode_full hc hoffset,encode_full hc hoffset']
      refine ⟨SamePlace.nextTerm ?_ c,.inl rfl⟩
      split_ifs
      · exact h.addParity c
      · exact h
  · rw [if_neg hc,if_neg hc]
    by_cases hdollar : c = byte '$'
    · rw [hdollar,encode_dollar,encode_dollar]
      exact ⟨samePlace_beginSentence gps gps',.inl rfl⟩
    · rw [encode_addChar hc hdollar,encode_addChar hc hdollar]
      exact ⟨h.addChar c,.inl rfl⟩

end Steps

end TinyGPS

end Pyrn.Gps
