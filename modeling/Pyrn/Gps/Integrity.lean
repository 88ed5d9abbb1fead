import Pyrn.Gps.SamePlace

/-!
# The integrity of impacts

Sentences without a matching checksum have no influence on the stored impacts, as long as a
matching checksum vouches for what is stored: a variable must not be published after such a
sentence before a sentence with a matching checksum has set it again.
-/

namespace Pyrn.Gps

open TinyGPS

/-- A checksum matches in a sentence. -/
def Passes (gps : TinyGPS) (content : List UInt8) : Prop :=
  ∃ e ∈ effects gps.beginSentence content,e.isMatch = true

instance (gps : TinyGPS) (content : List UInt8) : Decidable (Passes gps content) :=
  inferInstanceAs (Decidable (∃ e ∈ effects gps.beginSentence content,e.isMatch = true))

/-- A line in which the contents of sentences without a matching checksum are replaced by others
without one. -/
inductive Replaced : TinyGPS → TinyGPS → List UInt8 → List UInt8 → Prop
  | done (gps gps' : TinyGPS) : Replaced gps gps' [] []
  | same {gps gps' : TinyGPS} {content rest rest' : List UInt8} (hone : byte '$' ∉ content)
      (hrest : Replaced (gps.feed (byte '$' :: content)) (gps'.feed (byte '$' :: content))
        rest rest') :
      Replaced gps gps' (byte '$' :: content ++ rest) (byte '$' :: content ++ rest')
  | failing {gps gps' : TinyGPS} {content content' rest rest' : List UInt8}
      (hone : byte '$' ∉ content) (hone' : byte '$' ∉ content') (hfails : ¬Passes gps content)
      (hfails' : ¬Passes gps' content')
      (hrest : Replaced (gps.feed (byte '$' :: content)) (gps'.feed (byte '$' :: content'))
        rest rest') :
      Replaced gps gps' (byte '$' :: content ++ rest) (byte '$' :: content' ++ rest')

/-- Lines with such replacements. -/
inductive ReplacedLines :
    GPSSensorNMEA → GPSSensorNMEA → List (List UInt8) → List (List UInt8) → Prop
  | done (sensor sensor' : GPSSensorNMEA) : ReplacedLines sensor sensor' [] []
  | line {sensor sensor' : GPSSensorNMEA} {line line' : List UInt8}
      {lines lines' : List (List UInt8)}
      (hline : Replaced sensor.gpsParser sensor'.gpsParser line line')
      (hlines : ReplacedLines (sample sensor line).2 (sample sensor' line').2 lines lines') :
      ReplacedLines sensor sensor' (line :: lines) (line' :: lines')

/-- What holds of the impacts of a stream of bytes. -/
structure Integrity (sensor : GPSSensorNMEA) (stream : List UInt8) : Prop where
  parsed : Transition.Justified Parsed (trace sensor (linesOf stream))
  replaced : ∀ stream',ReplacedLines sensor sensor (linesOf stream) (linesOf stream') →
    impacts sensor stream' = impacts sensor stream

/-- Two parsers agree on what is vouched for. -/
structure Agree (v : Vouched) (gps gps' : TinyGPS) : Prop where
  pending : ∀ f,(v.own f || v.earlier f) = true → gps.pending f = gps'.pending f
  published : ∀ f,v.shown f = true → gps.published f = gps'.published f
  gllReady : gps.gllReady = gps'.gllReady

/-- Two parsers agree on what will be vouched for when the next sentence begins. -/
structure Settled (v : Vouched) (gps gps' : TinyGPS) : Prop where
  pending : v.passed = true → ∀ f,(v.own f || v.earlier f) = true →
    gps.pending f = gps'.pending f
  published : ∀ f,v.shown f = true → gps.published f = gps'.published f
  gllReady : gps.gllReady = gps'.gllReady

section TwoRuns

variable {v : Vouched} {gps gps' after after' : TinyGPS}

theorem Agree.settled (h : Agree v gps gps') : Settled v gps gps' :=
  ⟨fun _ => h.pending,h.published,h.gllReady⟩

theorem Settled.begins (h : Settled v gps gps') :
    Agree (v.step .begins) gps.beginSentence gps'.beginSentence := by
  refine ⟨fun f hf => ?_,h.published,h.gllReady⟩
  obtain ⟨hpassed,hold⟩ := Bool.and_eq_true_iff.mp hf
  exact h.pending hpassed f hold

theorem Agree.onPending (h : Agree v gps gps') (e : Effect) {f : Field}
    (hf : ((v.step e).own f || (v.step e).earlier f) = true) :
    e.onPending gps.pending f = e.onPending gps'.pending f := by
  cases e with
  | idle => exact h.pending f hf
  | begins => exact h.pending f (Bool.and_eq_true_iff.mp hf).2
  | set g value =>
    by_cases hfield : f = g
    · subst hfield
      simp only [Effect.onPending,Function.update_self]
    · simp only [Vouched.step,Function.update_of_ne hfield] at hf
      simp only [Effect.onPending,Function.update_of_ne hfield]
      exact h.pending f hf
  | negate g =>
    by_cases hfield : f = g
    · subst hfield
      simp only [Effect.onPending,Function.update_self]
      rw [h.pending f hf]
    · simp only [Effect.onPending,Function.update_of_ne hfield]
      exact h.pending f hf
  | matched => exact h.pending f hf
  | published type => exact h.pending f hf

theorem Agree.onPublished (h : Agree v gps gps') (e : Effect) {f : Field}
    (hf : (v.step e).shown f = true) :
    e.onPublished gps.pending gps.published f = e.onPublished gps'.pending gps'.published f := by
  cases e with
  | idle => exact h.published f hf
  | begins => exact h.published f hf
  | set g value => exact h.published f hf
  | negate g => exact h.published f hf
  | matched => exact h.published f hf
  | published type =>
    simp only [Vouched.step] at hf
    simp only [Effect.onPublished]
    split_ifs at hf ⊢ with hfield
    · exact h.pending f hf
    · exact h.published f hf

/-- The same effect on both. -/
theorem Agree.step {e : Effect} (h : Agree v gps gps') (hdoes : Does gps e after)
    (hdoes' : Does gps' e after') : Agree (v.step e) after after' := by
  refine ⟨fun f hf => ?_,fun f hf => ?_,?_⟩
  · rw [hdoes.pending,hdoes'.pending]
    exact h.onPending e hf
  · rw [hdoes.published,hdoes'.published]
    exact h.onPublished e hf
  · rw [hdoes.gllReady,hdoes'.gllReady,h.gllReady]

theorem does_of_silent {e : Effect} (he : Silent e) (hdoes : Does gps e after) :
    Does gps .idle after := by
  obtain ⟨hpending,hpublished,hready⟩ := hdoes
  rcases he with rfl | rfl
  · exact ⟨hpending,hpublished,hready⟩
  · exact ⟨hpending,hpublished,hready⟩

/-- No effect on either. -/
theorem Agree.silent {e e' : Effect} (h : Agree v gps gps') (he : Silent e) (he' : Silent e')
    (hdoes : Does gps e after) (hdoes' : Does gps' e' after') : Agree (v.step e) after after' := by
  obtain ⟨hpending,hpublished,hready⟩ :=
    h.step (does_of_silent he hdoes) (does_of_silent he' hdoes')
  rcases he with rfl | rfl
  · exact ⟨hpending,hpublished,hready⟩
  · exact ⟨hpending,hpublished,hready⟩

theorem Agree.encode (h : Agree v gps gps') (hplace : SamePlace gps gps') (c : UInt8) :
    Agree (v.step (gps.effect c)) (gps.encode c).2 (gps'.encode c).2 := by
  rcases (hplace.encode c).2 with heffect | ⟨hsilent,hsilent'⟩
  · have hdoes' := does_encode gps' c
    rw [← heffect] at hdoes'
    exact h.step (does_encode gps c) hdoes'
  · exact h.silent hsilent hsilent' (does_encode gps c) (does_encode gps' c)

theorem Agree.feed (h : Agree v gps gps') (hplace : SamePlace gps gps') (content : List UInt8) :
    Agree ((effects gps content).foldl Vouched.step v) (gps.feed content)
      (gps'.feed content) := by
  induction content generalizing v gps gps' with
  | nil => exact h
  | cons c content ih => exact ih (h.encode hplace c) (hplace.encode c).1

/-- Effects without a match publish nothing. -/
theorem feed_of_noMatch {content : List UInt8}
    (hnone : ∀ e ∈ effects gps content,e.isMatch = false) :
    (gps.feed content).published = gps.published ∧
      (gps.feed content).gllReady = gps.gllReady := by
  induction content generalizing gps with
  | nil => exact ⟨rfl,rfl⟩
  | cons c content ih =>
    obtain ⟨hfirst,hrest⟩ := List.forall_mem_cons.mp hnone
    obtain ⟨hpublished,hready⟩ := ih hrest
    obtain ⟨-,hpublished₁,hready₁⟩ := does_encode gps c
    have hkeep : (gps.encode c).2.published = gps.published ∧
        (gps.encode c).2.gllReady = gps.gllReady := by
      rw [hpublished₁,hready₁]
      cases heffect : gps.effect c with
      | published type =>
        rw [heffect] at hfirst
        cases hfirst
      | _ => exact ⟨rfl,rfl⟩
    exact ⟨hpublished.trans hkeep.1,hready.trans hkeep.2⟩

theorem vouched_of_noMatch {es : List Effect} (hnone : ∀ e ∈ es,e.isMatch = false)
    (hpassed : v.passed = false) :
    (es.foldl Vouched.step v).passed = false ∧ (es.foldl Vouched.step v).shown = v.shown := by
  induction es generalizing v with
  | nil => exact ⟨hpassed,rfl⟩
  | cons e es ih =>
    obtain ⟨hfirst,hrest⟩ := List.forall_mem_cons.mp hnone
    have hkeep : (v.step e).passed = false ∧ (v.step e).shown = v.shown := by
      cases e with
      | matched => cases hfirst
      | published type => cases hfirst
      | begins => exact ⟨rfl,rfl⟩
      | _ => exact ⟨hpassed,rfl⟩
    obtain ⟨hlast,hshown⟩ := ih hrest hkeep.1
    exact ⟨hlast,hshown.trans hkeep.2⟩

theorem noMatch_of_not_passes {content : List UInt8} (hfails : ¬Passes gps content) :
    ∀ e ∈ effects gps.beginSentence content,e.isMatch = false := by
  intro e he
  rw [Bool.eq_false_iff]
  exact fun hmatch => hfails ⟨e,he,hmatch⟩

/-- Two different sentences without a matching checksum: they leave the published variables as
they are, and nothing that is pending is vouched for any more. -/
theorem Settled.failing (h : Settled v gps gps') {content content' : List UInt8}
    (hfails : ¬Passes gps content) (hfails' : ¬Passes gps' content') :
    Settled ((effects gps (byte '$' :: content)).foldl Vouched.step v)
      (gps.feed (byte '$' :: content)) (gps'.feed (byte '$' :: content')) := by
  have hnone := noMatch_of_not_passes hfails
  obtain ⟨hpublished,hready⟩ := feed_of_noMatch hnone
  obtain ⟨hpublished',hready'⟩ := feed_of_noMatch (noMatch_of_not_passes hfails')
  obtain ⟨hpassed,hshown⟩ := @vouched_of_noMatch (v.step .begins) _ hnone rfl
  refine ⟨fun hlast => ?_,fun f hf => ?_,?_⟩
  · have hnot := hpassed.symm.trans hlast
    cases hnot
  · have hold : v.shown f = true := (congrFun hshown f).symm.trans hf
    have hsame : gps.beginSentence.published f = gps'.beginSentence.published f :=
      h.published f hold
    exact (congrFun hpublished f).trans (hsame.trans (congrFun hpublished' f).symm)
  · exact hready.trans (h.gllReady.trans hready'.symm)

theorem Settled.replaced (h : Settled v gps gps') {line line' : List UInt8}
    (hline : Replaced gps gps' line line') :
    Settled ((effects gps line).foldl Vouched.step v) (gps.feed line) (gps'.feed line') := by
  induction hline generalizing v with
  | done => exact h
  | same hone hrest ih =>
    rw [effects_append,List.foldl_append,feed_append,feed_append]
    exact ih (h.begins.feed (samePlace_beginSentence _ _) _).settled
  | failing hone hone' hfails hfails' hrest ih =>
    rw [effects_append,List.foldl_append,feed_append,feed_append]
    exact ih (h.failing hfails hfails')

theorem Settled.resetReady (h : Settled v gps gps') :
    Settled v gps.resetReady gps'.resetReady :=
  ⟨h.pending,h.published,rfl⟩

/-- A fix that is vouched for is one of both parsers. -/
theorem Settled.stored {done : List Event} (h : Settled (vouched done) gps gps')
    (hvouched : VouchedFor done (.stored (impactOf gps))) :
    impactOf gps' = impactOf gps ∧ (gps'.HasFix ↔ gps.HasFix) := by
  have hsame : ∀ f ∈ impactFields,gps.published f = gps'.published f :=
    fun f hf => h.published f (hvouched f hf)
  have hdate := hsame .date (by decide)
  have htime := hsame .time (by decide)
  have hlat := hsame .latitude (by decide)
  have hlon := hsame .longitude (by decide)
  have halt := hsame .altitude (by decide)
  have hhdop := hsame .hdop (by decide)
  constructor
  · rw [impactOf,impactOf,hdate,htime,hlat,hlon,halt,hhdop]
  · rw [HasFix,HasFix,hlat,hlon]

theorem Settled.unfixed {done : List Event} (h : Settled (vouched done) gps gps')
    (hvouched :
      VouchedFor done (.unfixed (gps.published .latitude) (gps.published .longitude))) :
    ¬gps'.HasFix := by
  rintro ⟨hlat,hlon⟩
  rcases hvouched with ⟨hinvalid,hshown⟩ | ⟨hinvalid,hshown⟩
  · exact hlat ((h.published _ hshown).symm.trans hinvalid)
  · exact hlon ((h.published _ hshown).symm.trans hinvalid)

/-- What a line shows of variables that are vouched for. -/
theorem Settled.sample {sensor sensor' : GPSSensorNMEA} {line line' : List UInt8}
    {done : List Event}
    (h : Settled (vouched done) (sensor.gpsParser.feed line) (sensor'.gpsParser.feed line'))
    (hvouched : ∀ event ∈ sampled (sensor.gpsParser.feed line),VouchedFor done event) :
    (sample sensor' line').1 = (sample sensor line).1 ∧
      Settled (vouched done) (sample sensor line).2.gpsParser
        (sample sensor' line').2.gpsParser := by
  rw [Gps.sample,Gps.sample]
  rw [sampled] at hvouched
  rw [← h.gllReady]
  by_cases hready : (sensor.gpsParser.feed line).gllReady = true
  · rw [if_pos hready] at hvouched
    rw [if_pos hready,if_pos hready]
    by_cases hfix : (sensor.gpsParser.feed line).HasFix
    · rw [if_pos hfix] at hvouched
      obtain ⟨himpact,hiff⟩ := h.stored (hvouched _ List.mem_cons_self)
      rw [if_pos hfix,if_pos (hiff.mpr hfix),himpact]
      exact ⟨rfl,h.resetReady⟩
    · rw [if_neg hfix] at hvouched
      rw [if_neg hfix,if_neg (h.unfixed (hvouched _ List.mem_cons_self))]
      exact ⟨rfl,h.resetReady⟩
  · rw [if_neg hready,if_neg hready]
    exact ⟨rfl,h⟩

theorem vouched_append (done : List Event) (es : List Effect) :
    vouched (done ++ es.map .effect) = es.foldl Vouched.step (vouched done) := by
  rw [vouched,List.foldl_append,List.foldl_map]
  rfl

theorem vouched_sampled (done : List Event) (gps : TinyGPS) :
    vouched (done ++ sampled gps) = vouched done := by
  rw [vouched,List.foldl_append,sampled]
  split_ifs <;> rfl

theorem sampled_eq_of_mem {event : Event} (h : event ∈ sampled gps) : sampled gps = [event] := by
  rw [sampled] at h ⊢
  split_ifs at h ⊢
  · rw [List.mem_singleton.mp h]
  · rw [List.mem_singleton.mp h]
  · exact absurd h List.not_mem_nil

/-- Where what is vouched for is shown, the impacts are the same. -/
theorem impacts_eq_of_replaced {sensor sensor' : GPSSensorNMEA}
    {lines lines' : List (List UInt8)} {done : List Event}
    (hlines : ReplacedLines sensor sensor' lines lines')
    (h : Settled (vouched done) sensor.gpsParser sensor'.gpsParser)
    (hvouched : ∀ before event,before ++ [event] <+: trace sensor lines →
      VouchedFor (done ++ before) event) :
    (Transition.runTotal sample sensor' lines').1 =
      (Transition.runTotal sample sensor lines).1 := by
  induction hlines generalizing done with
  | done => rfl
  | @line sensor sensor' line line' lines lines' hline hlines ih =>
    have hfed := h.replaced hline
    rw [← vouched_append] at hfed
    have hhere : ∀ event ∈ sampled (sensor.gpsParser.feed line),
        VouchedFor (done ++ (effects sensor.gpsParser line).map .effect) event := by
      intro event hevent
      apply hvouched _ event
      rw [trace,eventsOf,sampled_eq_of_mem hevent]
      exact List.prefix_append _ _
    obtain ⟨himpact,hnext⟩ := hfed.sample hhere
    rw [← vouched_sampled _ (sensor.gpsParser.feed line),List.append_assoc] at hnext
    have hrest := ih hnext fun before event hbefore => by
      rw [List.append_assoc]
      apply hvouched (eventsOf sensor line ++ before) event
      rw [List.append_assoc,trace]
      exact (List.prefix_append_right_inj _).mpr hbefore
    rw [Transition.runTotal,Transition.runTotal,himpact]
    simp only
    rw [hrest]

/-- Where a matching checksum vouches for all that is stored, an impact has been parsed from
sentences with a matching checksum, and the other sentences have no influence on it. -/
theorem integrity_of_vouched (ram : Field → BitVec 32) (buffer : Nat → UInt8) (impact : GpsImpact)
    (stream : List UInt8)
    (hvouched : Transition.Justified VouchedFor
      (trace (.new ram buffer impact) (linesOf stream))) :
    Integrity (.new ram buffer impact) stream := by
  constructor
  · exact fun done event hdone => parsed_of_vouchedFor (hvouched done event hdone)
  · intro stream' hlines
    apply @impacts_eq_of_replaced _ _ _ _ [] hlines
    · exact ⟨fun _ _ _ => rfl,fun _ _ => rfl,rfl⟩
    · exact hvouched

end TwoRuns

/-- The bytes of a sentence behind its first one. -/
def sentence (text : String) : List UInt8 := text.toList.map byte ++ [byte '\r']

/-- The bytes of a line with one sentence. -/
def lineOf (text : String) : List UInt8 := byte '$' :: sentence text ++ [byte '\n']

/-- A sensor whose memory was zero. -/
def zeroSensor : GPSSensorNMEA := .new (fun _ => 0) (fun _ => 0) ⟨0,0,0,0,0,0⟩

/-- A date and a position with matching checksums. -/
theorem integrity_matching : Integrity zeroSensor
    (lineOf "GPRMC,1,A,2,N,3,E,,,5*28" ++ lineOf "GPGLL,2,N,3,E,1,A*2A") :=
  integrity_of_vouched (fun _ => 0) (fun _ => 0) ⟨0,0,0,0,0,0⟩ _ (by decide +kernel)

/-- The date of a sentence with a wrong checksum is stored with the position of the next one, and
another such date in its place is stored instead. -/
theorem integrity_wrongDate : ¬Integrity zeroSensor
    (lineOf "GPRMC,1,A,2,N,3,E,,,5*00" ++ lineOf "GPGLL,2,N,3,E,1,A*2A") := by
  intro hintegrity
  have hlines : linesOf (lineOf "GPRMC,1,A,2,N,3,E,,,5*00" ++ lineOf "GPGLL,2,N,3,E,1,A*2A") =
      [byte '$' :: sentence "GPRMC,1,A,2,N,3,E,,,5*00" ++ [],
        byte '$' :: sentence "GPGLL,2,N,3,E,1,A*2A" ++ []] := by decide +kernel
  have hlines' : linesOf (lineOf "GPRMC,1,A,2,N,3,E,,,6*00" ++ lineOf "GPGLL,2,N,3,E,1,A*2A") =
      [byte '$' :: sentence "GPRMC,1,A,2,N,3,E,,,6*00" ++ [],
        byte '$' :: sentence "GPGLL,2,N,3,E,1,A*2A" ++ []] := by decide +kernel
  have hsame := hintegrity.replaced
    (lineOf "GPRMC,1,A,2,N,3,E,,,6*00" ++ lineOf "GPGLL,2,N,3,E,1,A*2A") (by
      rw [hlines,hlines']
      refine .line (.failing ?_ ?_ ?_ ?_ (.done _ _)) (.line (.same ?_ (.done _ _)) (.done _ _))
      all_goals decide +kernel)
  revert hsame
  decide +kernel

end Pyrn.Gps
