import Pyrn.Gps.SensorNmea

/-!
# What a character does

The effect of a character on the variables of the parser, apart from the scanning of the sentence:
the variables and the effects say everything that an impact depends on.
-/

namespace Pyrn.Gps

open TinyGPS

/-- What a character does to the variables: a sentence begins, a pending variable is set or
negated, a checksum matches, or it matches and the pending variables are published. -/
inductive Effect
  | idle
  | begins
  | set (f : Field) (value : BitVec 32)
  | negate (f : Field)
  | matched
  | published (type : SentenceType)
  deriving DecidableEq

namespace Effect

/-- A checksum has matched. -/
def isMatch : Effect → Bool
  | .matched => true
  | .published _ => true
  | _ => false

def onPending (pending : Field → BitVec 32) : Effect → Field → BitVec 32
  | .set f value => Function.update pending f value
  | .negate f => Function.update pending f (-pending f)
  | _ => pending

def onPublished (pending published : Field → BitVec 32) : Effect → Field → BitVec 32
  | .published type => fun f => if f ∈ type.fields then pending f else published f
  | _ => published

def onGllReady (ready : Bool) : Effect → Bool
  | .published type => ready || type = .gpgll
  | _ => ready

end Effect

/-- The effect of a change that a term makes. -/
def TinyGPS.Change.effect : Change → Effect
  | .set f value => .set f value
  | .negate f => .negate f
  | .dataGood _ => .idle
  | .none => .idle

namespace TinyGPS

/-- The parser when a term ends, before the term is looked at. -/
def ended (gps : TinyGPS) (c : UInt8) : TinyGPS :=
  { gps with
    parity := if c = byte ',' then gps.parity ^^^ c else gps.parity
    term := Function.update gps.term gps.termOffset 0 }

/-- The effect of a complete term. -/
def termEffect (gps : TinyGPS) : Effect :=
  if gps.isChecksumTerm then
    if gps.checksum = gps.parity then
      if gps.gpsDataGood then .published gps.sentenceType else .matched
    else .idle
  else if gps.termNumber = 0 then .idle
  else if gps.sentenceType ≠ .other ∧ gps.term 0 ≠ 0 then
    (termChange (gps.termNumber.toNat + gps.sentenceType.base) gps.text).effect
  else .idle

/-- The characters that end a term. -/
def EndsTerm (c : UInt8) : Prop := c = byte ',' ∨ c = byte '\r' ∨ c = byte '\n' ∨ c = byte '*'

instance (c : UInt8) : Decidable (EndsTerm c) := inferInstanceAs (Decidable (_ ∨ _))

/-- The effect of a character. -/
def effect (gps : TinyGPS) (c : UInt8) : Effect :=
  if EndsTerm c then if gps.termOffset < termSize then (gps.ended c).termEffect else .idle
  else if c = byte '$' then .begins
  else .idle

/-- The effects of a line of characters. -/
def effects : TinyGPS → List UInt8 → List Effect
  | _, [] => []
  | gps, c :: line => gps.effect c :: effects (gps.encode c).2 line

section Spec

variable (gps : TinyGPS) (c : UInt8)

/-- The variables of a parser that has an effect. -/
structure Does (before : TinyGPS) (e : Effect) (after : TinyGPS) : Prop where
  pending : after.pending = e.onPending before.pending
  published : after.published = e.onPublished before.pending before.published
  gllReady : after.gllReady = e.onGllReady before.gllReady

theorem does_change (ch : Change) : Does gps ch.effect (gps.change ch) := by
  cases ch <;> exact ⟨rfl,rfl,rfl⟩

theorem does_publish : Does gps (.published gps.sentenceType) gps.publish := ⟨rfl,rfl,rfl⟩

theorem does_termComplete : Does gps gps.termEffect gps.termComplete.2 := by
  rw [termEffect,termComplete]
  split_ifs
  · exact does_publish gps
  · exact ⟨rfl,rfl,rfl⟩
  · exact ⟨rfl,rfl,rfl⟩
  · exact ⟨rfl,rfl,rfl⟩
  · exact does_change gps _
  · exact ⟨rfl,rfl,rfl⟩

/-- The parser after a term has ended. -/
theorem encode_endsTerm {gps : TinyGPS} {c : UInt8} (hc : EndsTerm c)
    (hoffset : gps.termOffset < termSize) :
    (gps.encode c).2 = (gps.ended c).termComplete.2.nextTerm c := by
  rw [encode]
  by_cases hcomma : c = byte ','
  · have hroom : (gps.addParity c).termOffset < termSize := hoffset
    rw [if_pos hcomma,endTerm,if_pos hroom,ended,if_pos hcomma]
    rfl
  · rw [if_neg hcomma,if_pos (hc.resolve_left hcomma),endTerm,if_pos hoffset,ended,
      if_neg hcomma]

/-- No term is looked at when the buffer is full, which it never is. -/
theorem encode_full {gps : TinyGPS} {c : UInt8} (hc : EndsTerm c)
    (hoffset : ¬gps.termOffset < termSize) :
    (gps.encode c).2 = (if c = byte ',' then gps.addParity c else gps).nextTerm c := by
  rw [encode]
  by_cases hcomma : c = byte ','
  · have hfull : ¬(gps.addParity c).termOffset < termSize := hoffset
    rw [if_pos hcomma,if_pos hcomma,endTerm,if_neg hfull]
  · rw [if_neg hcomma,if_neg hcomma,if_pos (hc.resolve_left hcomma),endTerm,if_neg hoffset]

theorem encode_dollar : (gps.encode (byte '$')).2 = gps.beginSentence := rfl

theorem encode_addChar {gps : TinyGPS} {c : UInt8} (hc : ¬EndsTerm c) (hdollar : c ≠ byte '$') :
    (gps.encode c).2 = gps.addChar c := by
  rw [EndsTerm,not_or] at hc
  rw [encode,if_neg hc.1,if_neg hc.2,if_neg hdollar]

theorem does_addChar : Does gps .idle (gps.addChar c) := by
  rw [addChar]
  split_ifs <;> exact ⟨rfl,rfl,rfl⟩

theorem does_encode : Does gps (gps.effect c) (gps.encode c).2 := by
  rw [effect]
  by_cases hc : EndsTerm c
  · rw [if_pos hc]
    by_cases hoffset : gps.termOffset < termSize
    · rw [if_pos hoffset,encode_endsTerm hc hoffset]
      obtain ⟨hpending,hpublished,hready⟩ := does_termComplete (gps.ended c)
      exact ⟨hpending,hpublished,hready⟩
    · rw [if_neg hoffset,encode_full hc hoffset]
      split_ifs <;> exact ⟨rfl,rfl,rfl⟩
  · rw [if_neg hc]
    by_cases hdollar : c = byte '$'
    · rw [if_pos hdollar,hdollar,encode_dollar]
      exact ⟨rfl,rfl,rfl⟩
    · rw [if_neg hdollar,encode_addChar hc hdollar]
      exact does_addChar gps c

theorem effects_append (gps : TinyGPS) (line rest : List UInt8) :
    effects gps (line ++ rest) = effects gps line ++ effects (gps.feed line) rest := by
  induction line generalizing gps with
  | nil => rfl
  | cons c line ih =>
    rw [List.cons_append,effects,ih,effects]
    rfl

theorem feed_append (gps : TinyGPS) (line rest : List UInt8) :
    gps.feed (line ++ rest) = (gps.feed line).feed rest := List.foldl_append

end Spec

end TinyGPS

end Pyrn.Gps
