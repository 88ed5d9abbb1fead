import Mathlib.Data.List.TakeWhile
import Pyrn.Gps.SamePlace

/-!
# Reading a sentence

What the parser has when the terms of a sentence and its checksum have been fed, as a function of
the texts of the terms: it does not depend on what was fed before, apart from the variables that
the sentence leaves alone.
-/

namespace Pyrn.Gps

open TinyGPS

/-- A character of a term. -/
def Plain (c : UInt8) : Prop := ¬EndsTerm c ∧ c ≠ byte '$' ∧ c ≠ 0

instance (c : UInt8) : Decidable (Plain c) := inferInstanceAs (Decidable (_ ∧ _))

/-- What the buffer of a term keeps of it. -/
def kept (text : List UInt8) : List UInt8 := text.take (termSize - 1)

/-- What the terms of a sentence set. -/
structure Scan where
  pending : Field → BitVec 32
  sentenceType : SentenceType
  termNumber : UInt8
  gpsDataGood : Bool

namespace Scan

def change (scan : Scan) : Change → Scan
  | .set f value => { scan with pending := Function.update scan.pending f value }
  | .negate f => { scan with pending := Function.update scan.pending f (-scan.pending f) }
  | .dataGood good => { scan with gpsDataGood := good }
  | .none => scan

/-- The effect of a term on the pending variables. -/
def term (scan : Scan) (text : List UInt8) : Scan :=
  if scan.termNumber = 0 then { scan with sentenceType := typeOf text }
  else if scan.sentenceType ≠ .other ∧ text ≠ [] then
    scan.change (termChange (scan.termNumber.toNat + scan.sentenceType.base) text)
  else scan

def next (scan : Scan) (text : List UInt8) : Scan :=
  { scan.term (kept text) with termNumber := (scan.term (kept text)).termNumber + 1 }

/-- The beginning of a sentence. -/
def begin (pending : Field → BitVec 32) : Scan := ⟨pending,.other,0,false⟩

end Scan

namespace TinyGPS

/-- A parser inside of a term. -/
def reading (gps : TinyGPS) (scan : Scan) (parity : UInt8) (isChecksumTerm : Bool)
    (term : Nat → UInt8) (termOffset : Nat) : TinyGPS :=
  { gps with
    pending := scan.pending
    sentenceType := scan.sentenceType
    termNumber := scan.termNumber
    gpsDataGood := scan.gpsDataGood
    parity := parity
    isChecksumTerm := isChecksumTerm
    term := term
    termOffset := termOffset }

end TinyGPS

/-- The buffer begins with a text. -/
def Holds (term : Nat → UInt8) (text : List UInt8) : Prop :=
  (List.range text.length).map term = text

section Reading

variable {gps : TinyGPS} {scan : Scan} {parity c : UInt8} {isChecksumTerm : Bool}
  {term : Nat → UInt8} {text held : List UInt8}

theorem kept_length_lt (text : List UInt8) : (kept text).length < termSize := by
  rw [kept,List.length_take]
  exact Nat.lt_of_le_of_lt (Nat.min_le_left _ _) (by decide)

theorem kept_concat (text : List UInt8) (c : UInt8) : kept (text ++ [c]) =
    if (kept text).length < termSize - 1 then kept text ++ [c] else kept text := by
  rw [kept,kept,List.length_take]
  by_cases hroom : text.length < termSize - 1
  · have hshort : min (termSize - 1) text.length < termSize - 1 := by omega
    rw [if_pos hshort,List.take_of_length_le hroom.le,List.take_of_length_le]
    rw [List.length_append,List.length_singleton]
    exact hroom
  · have hfull : ¬min (termSize - 1) text.length < termSize - 1 := by omega
    rw [if_neg hfull,List.take_append_of_le_length (Nat.le_of_not_lt hroom)]

theorem Holds.store (h : Holds term text) (c : UInt8) :
    Holds (Function.update term text.length c) (text ++ [c]) := by
  rw [Holds,List.length_append,List.length_singleton,List.range_succ,List.map_append,
    List.map_singleton,Function.update_self]
  congr 1
  refine Eq.trans (List.map_congr_left fun i hi => ?_) h
  exact Function.update_of_ne (List.mem_range.mp hi).ne _ _

theorem addChar_of_room (hroom : gps.termOffset < termSize - 1) (c : UInt8) :
    gps.addChar c =
      if gps.isChecksumTerm then gps.storeChar c else (gps.storeChar c).addParity c := by
  rw [addChar,if_pos hroom]
  rfl

theorem addChar_of_full (hroom : ¬gps.termOffset < termSize - 1) (c : UInt8) :
    gps.addChar c = if gps.isChecksumTerm then gps else gps.addParity c := by
  rw [addChar,if_neg hroom]

/-- A character of a term. -/
theorem encode_plain (hc : Plain c) (hheld : Holds term (kept held)) :
    ∃ term', ((gps.reading scan parity isChecksumTerm term (kept held).length).encode c).2 =
        gps.reading scan (if isChecksumTerm then parity else parity ^^^ c) isChecksumTerm term'
          (kept (held ++ [c])).length ∧
      Holds term' (kept (held ++ [c])) := by
  rw [encode_addChar hc.1 hc.2.1,kept_concat]
  let inside := gps.reading scan parity isChecksumTerm term (kept held).length
  by_cases hroom : (kept held).length < termSize - 1
  · have hinside : inside.termOffset < termSize - 1 := hroom
    rw [if_pos hroom,addChar_of_room hinside,List.length_append,List.length_singleton]
    refine ⟨Function.update term (kept held).length c,?_,hheld.store c⟩
    cases isChecksumTerm <;> rfl
  · have hinside : ¬inside.termOffset < termSize - 1 := hroom
    rw [if_neg hroom,addChar_of_full hinside]
    refine ⟨term,?_,hheld⟩
    cases isChecksumTerm <;> rfl

theorem feed_plain (hplain : ∀ c ∈ text, Plain c) (hheld : Holds term (kept held)) :
    ∃ term', (gps.reading scan parity isChecksumTerm term (kept held).length).feed text =
        gps.reading scan (if isChecksumTerm then parity else text.foldl (· ^^^ ·) parity)
          isChecksumTerm term' (kept (held ++ text)).length ∧
      Holds term' (kept (held ++ text)) := by
  induction text generalizing held parity term with
  | nil =>
    rw [List.append_nil]
    exact ⟨term,by cases isChecksumTerm <;> rfl,hheld⟩
  | cons c text ih =>
    obtain ⟨term',hfirst,hheld'⟩ := @encode_plain gps scan parity c isChecksumTerm term held
      (hplain c List.mem_cons_self) hheld
    obtain ⟨term'',hrest,hheld''⟩ := ih (fun b hb => hplain b (List.mem_cons_of_mem _ hb)) hheld'
    rw [List.append_assoc,List.singleton_append] at hrest hheld''
    refine ⟨term'',?_,hheld''⟩
    rw [TinyGPS.feed,List.foldl_cons,hfirst]
    refine hrest.trans ?_
    cases isChecksumTerm <;> rfl

theorem plain_kept (hplain : ∀ c ∈ text, Plain c) : ∀ c ∈ kept text, Plain c :=
  fun c hmem => hplain c (List.take_subset _ _ hmem)

/-- The string in the buffer at the end of a term. -/
theorem text_of_holds (hplain : ∀ c ∈ text, Plain c) (hholds : Holds gps.term (kept text))
    (hzero : gps.term (kept text).length = 0) : gps.text = kept text := by
  rw [text_of_zero (kept_length_lt text) hzero,hholds]
  exact List.takeWhile_eq_self_iff.mpr fun c hmem =>
    decide_eq_true (plain_kept hplain c hmem).2.2

theorem first_of_holds (hplain : ∀ c ∈ text, Plain c) (hholds : Holds gps.term (kept text))
    (hzero : gps.term (kept text).length = 0) : gps.term 0 ≠ 0 ↔ kept text ≠ [] := by
  have hkept := plain_kept hplain
  cases hcases : kept text with
  | nil =>
    rw [hcases] at hzero
    exact iff_of_false (not_not.mpr hzero) (not_not.mpr rfl)
  | cons c rest =>
    rw [hcases] at hholds hkept
    have hfirst : gps.term 0 = c := by
      rw [Holds,List.length_cons,List.range_succ_eq_map,List.map_cons] at hholds
      exact (List.cons.inj hholds).1
    rw [hfirst]
    exact iff_of_true (hkept c List.mem_cons_self).2.2 (List.cons_ne_nil _ _)

/-- A term that is no checksum, when it is complete. -/
theorem termComplete_reading (hplain : ∀ c ∈ text, Plain c) (hholds : Holds term (kept text))
    (hzero : term (kept text).length = 0) :
    (gps.reading scan parity false term (kept text).length).termComplete.2 =
      gps.reading (scan.term (kept text)) parity false term (kept text).length := by
  let complete := gps.reading scan parity false term (kept text).length
  have hchecksum : ¬complete.isChecksumTerm = true := Bool.false_ne_true
  have htext : complete.text = kept text := text_of_holds hplain hholds hzero
  have hfirst : complete.term 0 ≠ 0 ↔ kept text ≠ [] := first_of_holds hplain hholds hzero
  by_cases hnumber : scan.termNumber = 0
  · have hnumber' : complete.termNumber = 0 := hnumber
    rw [termComplete,if_neg hchecksum,if_pos hnumber',htext,Scan.term,if_pos hnumber]
    rfl
  · have hnumber' : ¬complete.termNumber = 0 := hnumber
    rw [termComplete,if_neg hchecksum,if_neg hnumber',htext,Scan.term,if_neg hnumber]
    by_cases hused : scan.sentenceType ≠ .other ∧ kept text ≠ []
    · have hused' : complete.sentenceType ≠ .other ∧ complete.term 0 ≠ 0 :=
        ⟨hused.1,hfirst.mpr hused.2⟩
      rw [if_pos hused,if_pos hused']
      simp only [reading]
      cases termChange (scan.termNumber.toNat + scan.sentenceType.base) (kept text) <;> rfl
    · have hused' : ¬(complete.sentenceType ≠ .other ∧ complete.term 0 ≠ 0) :=
        fun h => hused ⟨h.1,hfirst.mp h.2⟩
      rw [if_neg hused,if_neg hused']

/-- A term that is no checksum, with the character that ends it. -/
theorem feed_term (hplain : ∀ c ∈ text, Plain c) (hc : EndsTerm c) :
    ∃ term', (gps.reading scan parity false term 0).feed (text ++ [c]) =
      gps.reading (scan.next text)
        ((text ++ if c = byte ',' then [c] else []).foldl (· ^^^ ·) parity) (c = byte '*')
        term' 0 := by
  obtain ⟨term',hfed,hholds⟩ : ∃ term', (gps.reading scan parity false term 0).feed text =
        gps.reading scan (text.foldl (· ^^^ ·) parity) false term' (kept text).length ∧
      Holds term' (kept text) := @feed_plain gps scan parity false term text [] hplain rfl
  let after := Function.update term' (kept text).length 0
  have hafter : Holds after (kept text) := by
    refine Eq.trans (List.map_congr_left fun i hi => ?_) hholds
    exact Function.update_of_ne (List.mem_range.mp hi).ne _ _
  have hzero : after (kept text).length = 0 := Function.update_self _ _ _
  let inside := gps.reading scan (text.foldl (· ^^^ ·) parity) false term' (kept text).length
  have hinside : inside.termOffset < termSize := kept_length_lt text
  have hended : inside.ended c = gps.reading scan
      ((text ++ if c = byte ',' then [c] else []).foldl (· ^^^ ·) parity) false after
      (kept text).length := by
    rw [ended,List.foldl_append]
    split_ifs <;> rfl
  refine ⟨after,?_⟩
  rw [feed_append,hfed]
  refine (encode_endsTerm hc hinside).trans ?_
  rw [hended,termComplete_reading hplain hafter hzero]
  rfl

/-- The terms of a sentence, separated by commas. -/
def body (terms : List (List UInt8)) : List UInt8 := [byte ','].intercalate terms

theorem feed_body {terms : List (List UInt8)} (hsome : terms ≠ [])
    (hplain : ∀ text ∈ terms, ∀ c ∈ text, Plain c) :
    ∃ term', (gps.reading scan parity false term 0).feed (body terms ++ [byte '*']) =
      gps.reading (terms.foldl Scan.next scan) ((body terms).foldl (· ^^^ ·) parity) true
        term' 0 := by
  induction terms generalizing scan parity term with
  | nil => exact absurd rfl hsome
  | cons text terms ih =>
    have htext := hplain text List.mem_cons_self
    cases terms with
    | nil =>
      obtain ⟨term',hfed⟩ := @feed_term gps scan parity (byte '*') term text htext (by decide)
      have hstar : ¬byte '*' = byte ',' := by decide
      rw [if_neg hstar,List.append_nil] at hfed
      rw [body,List.intercalate_singleton]
      exact ⟨term',hfed⟩
    | cons next terms =>
      obtain ⟨term',hfed⟩ := @feed_term gps scan parity (byte ',') term text htext (by decide)
      rw [if_pos rfl] at hfed
      obtain ⟨last,hrest⟩ := @ih (scan.next text)
        ((text ++ [byte ',']).foldl (· ^^^ ·) parity) term' (List.cons_ne_nil _ _)
        fun text hmem => hplain text (List.mem_cons_of_mem _ hmem)
      refine ⟨last,?_⟩
      have hparity : (text ++ [byte ','] ++ body (next :: terms)).foldl (· ^^^ ·) parity =
          (body (next :: terms)).foldl (· ^^^ ·) ((text ++ [byte ',']).foldl (· ^^^ ·) parity) :=
        List.foldl_append
      rw [body,List.intercalate_cons_cons,← body,hparity,List.append_assoc,feed_append,hfed]
      exact hrest

/-- The term of a checksum: its data is published when it matches and the data is good. -/
theorem feed_checksum (hplain : ∀ c ∈ text, Plain c) :
    ∃ matched : Bool, (∀ a b, text = [a,b] →
        (matched = true ↔ UInt8.ofInt (16 * fromHex a + fromHex b) = parity)) ∧
      Does (gps.reading scan parity true term 0)
        (if matched && scan.gpsDataGood then .published scan.sentenceType else .idle)
        ((gps.reading scan parity true term 0).feed (text ++ [byte '\r'])) := by
  obtain ⟨term',hfed,hholds⟩ : ∃ term', (gps.reading scan parity true term 0).feed text =
        gps.reading scan parity true term' (kept text).length ∧
      Holds term' (kept text) := @feed_plain gps scan parity true term text [] hplain rfl
  let inside := gps.reading scan parity true term' (kept text).length
  have hinside : inside.termOffset < termSize := kept_length_lt text
  let complete := inside.ended (byte '\r')
  have hfeed : (gps.reading scan parity true term 0).feed (text ++ [byte '\r']) =
      complete.termComplete.2.nextTerm (byte '\r') := by
    rw [feed_append,hfed]
    exact encode_endsTerm (.inr (.inl rfl)) hinside
  have heffect : complete.termEffect = if complete.checksum = parity then
      if scan.gpsDataGood then .published scan.sentenceType else .matched else .idle := rfl
  obtain ⟨hpending,hpublished,hready⟩ := does_termComplete complete
  refine ⟨decide (complete.checksum = parity),?_,?_⟩
  · rintro a b rfl
    have hpair : term' 0 = a ∧ term' 1 = b := by
      injection hholds with ha hrest
      injection hrest with hb
      exact ⟨ha,hb⟩
    have hchecksum : complete.checksum = UInt8.ofInt (16 * fromHex a + fromHex b) := by
      rw [← hpair.1,← hpair.2]
      rfl
    rw [decide_eq_true_iff,hchecksum]
  · rw [hfeed]
    rw [heffect] at hpending hpublished hready
    by_cases hmatch : complete.checksum = parity
    · rw [if_pos hmatch] at hpending hpublished hready
      rw [decide_eq_true hmatch,Bool.true_and]
      cases hgood : scan.gpsDataGood with
      | true =>
        rw [hgood] at hpending hpublished hready
        exact ⟨hpending,hpublished,hready⟩
      | false =>
        rw [hgood] at hpending hpublished hready
        exact ⟨hpending,hpublished,hready⟩
    · rw [if_neg hmatch] at hpending hpublished hready
      rw [decide_eq_false hmatch,Bool.false_and]
      exact ⟨hpending,hpublished,hready⟩

end Reading

/-- A sentence: its address, its fields, and the text behind the asterisk. -/
structure Sentence where
  address : List UInt8
  fields : List (List UInt8)
  checksum : List UInt8

namespace Sentence

variable (sentence : Sentence)

def terms : List (List UInt8) := sentence.address :: sentence.fields

/-- The line of a sentence, without the newline behind it. -/
def line : List UInt8 :=
  byte '$' :: (body sentence.terms ++ [byte '*'] ++ (sentence.checksum ++ [byte '\r']))

/-- A sentence of plain texts whose terms can be counted in a byte. -/
structure Complete : Prop where
  plain : ∀ text ∈ sentence.checksum :: sentence.terms, ∀ c ∈ text, Plain c
  short : sentence.fields.length < 256

/-- What the terms of the sentence set, in a parser with some pending variables. -/
def scan (pending : Field → BitVec 32) : Scan :=
  sentence.terms.foldl Scan.next (.begin pending)

end Sentence

/-- An upper-case hexadecimal digit. -/
def hexDigit (d : Nat) : UInt8 := byte (Nat.digitChar d).toUpper

/-- The checksum of a body in two digits. -/
def checksumText (terms : List (List UInt8)) : List UInt8 :=
  [hexDigit (((body terms).foldl (· ^^^ ·) 0).toNat / 16),
    hexDigit (((body terms).foldl (· ^^^ ·) 0).toNat % 16)]

theorem fromHex_hexDigit : ∀ d < 16, fromHex (hexDigit d) = d := by
  decide

/-- The value of the two digits of a byte. -/
theorem checksum_hexDigits (parity : UInt8) :
    UInt8.ofInt (16 * fromHex (hexDigit (parity.toNat / 16)) +
      fromHex (hexDigit (parity.toNat % 16))) = parity := by
  have hlt : parity.toNat < 256 := parity.toNat_lt
  have hvalue : (16 * ((parity.toNat / 16 : Nat) : Int) + ((parity.toNat % 16 : Nat) : Int)) =
      (parity.toNat : Int) := by omega
  rw [fromHex_hexDigit _ (by omega),fromHex_hexDigit _ (Nat.mod_lt _ (by decide)),hvalue,
    UInt8.ofInt,Int.emod_eq_of_lt (Int.natCast_nonneg _) (by omega),Int.toNat_natCast]
  exact UInt8.ofNat_toNat

/-- The variables of a parser behind the line of a sentence. -/
theorem feed_line {sentence : Sentence} (h : sentence.Complete) (gps : TinyGPS) :
    let scan := sentence.scan gps.pending
    ∃ valid : Bool,
      (sentence.checksum = checksumText sentence.terms → valid = scan.gpsDataGood) ∧
        (gps.feed sentence.line).pending = scan.pending ∧
        (gps.feed sentence.line).published = (fun f =>
          if valid = true ∧ f ∈ scan.sentenceType.fields then scan.pending f
          else gps.published f) ∧
        (gps.feed sentence.line).gllReady =
          (gps.gllReady || (valid && scan.sentenceType = .gpgll)) := by
  intro scan
  let parity := (body sentence.terms).foldl (· ^^^ ·) 0
  obtain ⟨term,hbody⟩ := @feed_body gps (.begin gps.pending) 0 gps.term sentence.terms
    (List.cons_ne_nil _ _) fun text hmem => h.plain text (List.mem_cons_of_mem _ hmem)
  obtain ⟨matched,hmatched,hdoes⟩ := @feed_checksum gps scan parity term sentence.checksum
    (h.plain _ List.mem_cons_self)
  have hfed : gps.feed sentence.line = (gps.reading scan parity true term 0).feed
      (sentence.checksum ++ [byte '\r']) := by
    have hbegin : gps.feed sentence.line = (gps.reading (.begin gps.pending) 0 false gps.term
        0).feed (body sentence.terms ++ [byte '*'] ++ (sentence.checksum ++ [byte '\r'])) := rfl
    rw [hbegin,feed_append,hbody]
    rfl
  refine ⟨matched && scan.gpsDataGood,fun hvalid => ?_,?_⟩
  · rw [(hmatched _ _ hvalid).mpr (checksum_hexDigits _),Bool.true_and]
  · rw [hfed]
    generalize (matched && scan.gpsDataGood) = valid at hdoes
    obtain ⟨hpending,hpublished,hready⟩ := hdoes
    cases valid with
    | true =>
      refine ⟨hpending,?_,hready⟩
      simp only [true_and]
      exact hpublished
    | false =>
      refine ⟨hpending,?_,?_⟩
      · simp only [Bool.false_eq_true,false_and,if_false]
        exact hpublished
      · rw [Bool.false_and,Bool.or_false]
        exact hready

section Scanning

variable {scan : Scan} {text : List UInt8} {fields : List (List UInt8)}

theorem gpsstrcmp_iff {str1 str2 : List UInt8} : gpsstrcmp str1 str2 = true ↔ str1 <+: str2 := by
  induction str1 generalizing str2 with
  | nil => exact iff_of_true rfl (List.nil_prefix)
  | cons a str1 ih =>
    cases str2 with
    | nil => exact iff_of_false Bool.false_ne_true fun h => by cases List.prefix_nil.mp h
    | cons b str2 =>
      rw [gpsstrcmp,Bool.and_eq_true,decide_eq_true_iff,ih,List.cons_prefix_cons]

theorem kept_eq_nil : kept text = [] ↔ text = [] := by
  rw [kept,List.take_eq_nil_iff]
  exact or_iff_right (by decide)

theorem kept_headD (text : List UInt8) : (kept text).headD 0 = text.headD 0 := by
  cases text <;> rfl

@[simp] theorem change_termNumber (ch : Change) :
    (scan.change ch).termNumber = scan.termNumber := by
  cases ch <;> rfl

@[simp] theorem change_sentenceType (ch : Change) :
    (scan.change ch).sentenceType = scan.sentenceType := by
  cases ch <;> rfl

@[simp] theorem term_termNumber (text : List UInt8) :
    (scan.term text).termNumber = scan.termNumber := by
  rw [Scan.term]
  split_ifs
  · rfl
  · exact change_termNumber _
  · rfl

@[simp] theorem next_termNumber (text : List UInt8) :
    (scan.next text).termNumber = scan.termNumber + 1 := by
  rw [Scan.next,term_termNumber]

/-- The numbers of the terms do not wrap around. -/
theorem next_toNat (hshort : scan.termNumber.toNat + 1 < 256) (text : List UInt8) :
    (scan.next text).termNumber.toNat = scan.termNumber.toNat + 1 := by
  rw [next_termNumber,UInt8.toNat_add]
  exact Nat.mod_eq_of_lt hshort

theorem next_of_pos (hpos : 0 < scan.termNumber.toNat) (text : List UInt8) :
    scan.next text =
      { if kept text ≠ [] ∧ scan.sentenceType ≠ .other then
          scan.change (termChange (scan.termNumber.toNat + scan.sentenceType.base) (kept text))
        else scan with
        termNumber := scan.termNumber + 1 } := by
  have hnumber : ¬scan.termNumber = 0 := by
    intro hzero
    rw [hzero] at hpos
    cases hpos
  rw [Scan.next,term_termNumber,Scan.term,if_neg hnumber]
  simp only [and_comm]

theorem next_sentenceType (hpos : 0 < scan.termNumber.toNat) (text : List UInt8) :
    (scan.next text).sentenceType = scan.sentenceType := by
  rw [next_of_pos hpos]
  simp only
  split_ifs
  · exact change_sentenceType _
  · rfl

/-- The type of a sentence stays as its address gave it. -/
theorem foldl_sentenceType (hpos : 0 < scan.termNumber.toNat)
    (hshort : scan.termNumber.toNat + fields.length ≤ 256) :
    (fields.foldl Scan.next scan).sentenceType = scan.sentenceType := by
  induction fields generalizing scan with
  | nil => rfl
  | cons text fields ih =>
    have hsame := next_sentenceType hpos text
    rw [List.length_cons] at hshort
    rw [List.foldl_cons]
    cases fields with
    | nil => exact hsame
    | cons next fields =>
      rw [List.length_cons] at hshort ih
      have hnext := @next_toNat scan (by omega) text
      rw [ih (by omega) (by omega),hsame]

theorem foldl_toNat (hshort : scan.termNumber.toNat + fields.length < 256) :
    (fields.foldl Scan.next scan).termNumber.toNat = scan.termNumber.toNat + fields.length := by
  induction fields generalizing scan with
  | nil => rfl
  | cons text fields ih =>
    rw [List.length_cons] at hshort
    have hnext := @next_toNat scan (by omega) text
    rw [List.foldl_cons,ih (by omega),hnext,List.length_cons]
    omega

/-- Fields in which the parser finds nothing. -/
theorem foldl_of_none (hpos : 0 < scan.termNumber.toNat)
    (hshort : scan.termNumber.toNat + fields.length ≤ 256)
    (hnone : ∀ n text, scan.termNumber.toNat ≤ n → n < scan.termNumber.toNat + fields.length →
      termChange (n + scan.sentenceType.base) text = .none) :
    (fields.foldl Scan.next scan).pending = scan.pending ∧
      (fields.foldl Scan.next scan).gpsDataGood = scan.gpsDataGood := by
  induction fields generalizing scan with
  | nil => exact ⟨rfl,rfl⟩
  | cons text fields ih =>
    rw [List.length_cons] at hshort hnone
    have hfirst : scan.next text = { scan with termNumber := scan.termNumber + 1 } := by
      rw [next_of_pos hpos,hnone _ _ (Nat.le_refl _) (by omega)]
      split_ifs <;> rfl
    rw [List.foldl_cons]
    cases fields with
    | nil => rw [hfirst]; exact ⟨rfl,rfl⟩
    | cons next fields =>
      rw [List.length_cons] at hshort ih hnone
      have hnext := @next_toNat scan (by omega) text
      obtain ⟨hpending,hgood⟩ := @ih (scan.next text) (by omega) (by omega) (by
        intro n text' hlow hhigh
        have htype : (scan.next text).sentenceType = scan.sentenceType := by rw [hfirst]
        rw [htype]
        exact hnone n text' (by omega) (by omega))
      rw [hpending,hgood,hfirst]
      exact ⟨rfl,rfl⟩

theorem scan_sentenceType {sentence : Sentence} (h : sentence.Complete)
    (pending : Field → BitVec 32) :
    (sentence.scan pending).sentenceType = typeOf (kept sentence.address) := by
  have hshort := h.short
  have hnumber : ((Scan.begin pending).next sentence.address).termNumber = 1 := rfl
  rw [Sentence.scan,Sentence.terms,List.foldl_cons,foldl_sentenceType]
  · rfl
  · rw [hnumber]
    decide
  · rw [hnumber]
    have hone : (1 : UInt8).toNat = 1 := rfl
    omega

end Scanning

end Pyrn.Gps
