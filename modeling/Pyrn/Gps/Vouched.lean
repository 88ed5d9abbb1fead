import Pyrn.Gps.Effects

/-!
# Where an impact comes from

A run is told by its events: the effects of the characters and the impacts that are stored. From
the events one sees which sentences a variable was parsed from, and which variables a matching
checksum vouches for.
-/

namespace Pyrn.Gps

open TinyGPS

/-- An effect of a character, or what comes of a line that has completed a GLL sentence: an
impact is stored, or one of its angles is not valid. -/
inductive Event
  | effect (e : Effect)
  | stored (impact : GpsImpact)
  | unfixed (lat lon : BitVec 32)
  deriving DecidableEq

/-- What has been observed after an event, by one who sees the effects only. -/
def Event.observe {ω : Type*} (step : ω → Effect → ω) (seen : ω) : Event → ω
  | .effect e => step seen e
  | _ => seen

/-- The event after a line, as the parser is then. -/
def sampled (gps : TinyGPS) : List Event :=
  if gps.gllReady then
    if gps.HasFix then [.stored (impactOf gps)]
    else [.unfixed (gps.published .latitude) (gps.published .longitude)]
  else []

/-- The events of a line. -/
def eventsOf (sensor : GPSSensorNMEA) (line : List UInt8) : List Event :=
  (effects sensor.gpsParser line).map .effect ++ sampled (sensor.gpsParser.feed line)

/-- The events of some lines. -/
def trace : GPSSensorNMEA → List (List UInt8) → List Event
  | _, [] => []
  | sensor, line :: lines => eventsOf sensor line ++ trace (sample sensor line).2 lines

/-- The impact of an event that stores one. -/
def Event.impact? : Event → Option GpsImpact
  | .stored impact => some impact
  | _ => none

theorem eventsOf_impacts (sensor : GPSSensorNMEA) (line : List UInt8) :
    (eventsOf sensor line).filterMap Event.impact? = (sample sensor line).1.toList := by
  have heffects : ((effects sensor.gpsParser line).map Event.effect).filterMap Event.impact? =
      [] := by
    rw [List.filterMap_map]
    exact List.filterMap_eq_nil_iff.mpr fun _ _ => rfl
  rw [eventsOf,List.filterMap_append,heffects,List.nil_append,sampled,sample]
  split_ifs <;> rfl

/-- The impacts of the events are those that `Sample` stores. -/
theorem trace_impacts (sensor : GPSSensorNMEA) (lines : List (List UInt8)) :
    (trace sensor lines).filterMap Event.impact? =
      (Transition.runTotal sample sensor lines).1.filterMap id := by
  induction lines generalizing sensor with
  | nil => rfl
  | cons line lines ih =>
    rw [trace,List.filterMap_append,eventsOf_impacts,ih,Transition.runTotal]
    cases himpact : (sample sensor line).1 with
    | none => rfl
    | some impact => rfl

/-- The sentences that the variables were parsed from, none for a variable that was not parsed,
and those of the sentences that had a matching checksum. -/
structure Origins where
  sentence : Nat
  matching : List Nat
  pending : Field → Option (List Nat)
  published : Field → Option (List Nat)

namespace Origins

/-- Sentence zero stands for the time before the first one, in which nothing is parsed. -/
def initial : Origins := ⟨0,[0],fun _ => none,fun _ => none⟩

def step (o : Origins) : Effect → Origins
  | .idle => o
  | .begins => { o with sentence := o.sentence + 1 }
  | .set f _ => { o with pending := Function.update o.pending f (some [o.sentence]) }
  | .negate f =>
      { o with pending := Function.update o.pending f ((o.pending f).map (o.sentence :: ·)) }
  | .matched => { o with matching := o.sentence :: o.matching }
  | .published type =>
      { o with
        matching := o.sentence :: o.matching
        published := fun f => if f ∈ type.fields then o.pending f else o.published f }

/-- A variable was parsed, and only from sentences with a matching checksum. -/
def Matching (o : Origins) (origin : Option (List Nat)) : Prop :=
  ∃ sentences,origin = some sentences ∧ ∀ k ∈ sentences,k ∈ o.matching

end Origins

/-- The variables that sentences with a matching checksum have set since the last sentence without
one, those that the present sentence has set, whether it has had a matching checksum, and the
published variables that were among them. -/
structure Vouched where
  earlier : Field → Bool
  own : Field → Bool
  passed : Bool
  shown : Field → Bool

namespace Vouched

/-- The altitude and the dilution may be shown as they are in the beginning. -/
def initial : Vouched where
  earlier f := f = .altitude || f = .hdop
  own _ := false
  passed := true
  shown f := f = .altitude || f = .hdop

def step (v : Vouched) : Effect → Vouched
  | .idle => v
  | .begins =>
      { v with
        earlier := fun f => v.passed && (v.own f || v.earlier f)
        own := fun _ => false
        passed := false }
  | .set f _ => { v with own := Function.update v.own f true }
  | .negate _ => v
  | .matched => { v with passed := true }
  | .published type =>
      { v with
        passed := true
        shown := fun f => if f ∈ type.fields then v.own f || v.earlier f else v.shown f }

end Vouched

/-- The variables that a claim about an impact names. -/
def parsedFields : List Field := [.date,.time,.latitude,.longitude]

/-- The variables that an impact shows. -/
def impactFields : List Field := [.date,.time,.latitude,.longitude,.altitude,.hdop]

def origins (done : List Event) : Origins := done.foldl (Event.observe Origins.step) .initial

def vouched (done : List Event) : Vouched := done.foldl (Event.observe Vouched.step) .initial

/-- An impact is stored only when its variables were parsed from sentences with a matching
checksum. -/
def Parsed (done : List Event) : Event → Prop
  | .stored _ => ∀ f ∈ parsedFields,(origins done).Matching ((origins done).published f)
  | _ => True

/-- A matching checksum vouches for the variables of an impact that is stored, and for an angle
that keeps one from being stored. -/
def VouchedFor (done : List Event) : Event → Prop
  | .effect _ => True
  | .stored _ => ∀ f ∈ impactFields,(vouched done).shown f = true
  | .unfixed lat lon =>
      lat = gpsInvalidAngle ∧ (vouched done).shown .latitude = true ∨
        lon = gpsInvalidAngle ∧ (vouched done).shown .longitude = true

instance (done : List Event) : ∀ e,Decidable (VouchedFor done e)
  | .effect _ => inferInstanceAs (Decidable True)
  | .stored _ => inferInstanceAs (Decidable (∀ f ∈ impactFields,(vouched done).shown f = true))
  | .unfixed lat lon => inferInstanceAs (Decidable
      (lat = gpsInvalidAngle ∧ (vouched done).shown .latitude = true ∨
        lon = gpsInvalidAngle ∧ (vouched done).shown .longitude = true))

section Sound

variable {v : Vouched} {o : Origins} {e : Effect}

/-- What is vouched for has been parsed from sentences with a matching checksum, and from the
present one. -/
structure Sound (v : Vouched) (o : Origins) : Prop where
  pending : ∀ f ∈ parsedFields,(v.own f || v.earlier f) = true →
    ∃ sentences,o.pending f = some sentences ∧ ∀ k ∈ sentences,k = o.sentence ∨ k ∈ o.matching
  passed : v.passed = true → o.sentence ∈ o.matching
  published : ∀ f ∈ parsedFields,v.shown f = true → o.Matching (o.published f)

theorem sound_initial : Sound .initial .initial := by
  have hnone : ∀ f ∈ parsedFields,Vouched.initial.earlier f = false := by decide
  refine ⟨fun f hf h => ?_,fun h => ?_,fun f hf h => ?_⟩
  · cases (hnone f hf).symm.trans h
  · exact List.mem_cons_self
  · cases (hnone f hf).symm.trans h

theorem Origins.Matching.cons {origin : Option (List Nat)} (h : o.Matching origin) (k : Nat)
    (pending published : Field → Option (List Nat)) :
    Origins.Matching ⟨o.sentence,k :: o.matching,pending,published⟩ origin := by
  obtain ⟨sentences,horigin,hmem⟩ := h
  exact ⟨sentences,horigin,fun n hn => List.mem_cons_of_mem _ (hmem n hn)⟩

theorem sound_begins (h : Sound v o) : Sound (v.step .begins) (o.step .begins) := by
  refine ⟨fun f hparsed hf => ?_,fun hpassed => ?_,h.published⟩
  · obtain ⟨hpassed,hold⟩ := Bool.and_eq_true_iff.mp hf
    obtain ⟨sentences,horigin,hmem⟩ := h.pending f hparsed hold
    refine ⟨sentences,horigin,fun k hk => .inr ?_⟩
    rcases hmem k hk with rfl | hmatching
    · exact h.passed hpassed
    · exact hmatching
  · cases hpassed

theorem sound_set (h : Sound v o) (f : Field) (value : BitVec 32) :
    Sound (v.step (.set f value)) (o.step (.set f value)) := by
  refine ⟨fun g hparsed hg => ?_,h.passed,h.published⟩
  by_cases hfield : g = f
  · subst hfield
    refine ⟨[o.sentence],Function.update_self _ _ _,fun k hk => .inl (List.mem_singleton.mp hk)⟩
  · simp only [Vouched.step,Function.update_of_ne hfield] at hg
    simp only [Origins.step,Function.update_of_ne hfield]
    exact h.pending g hparsed hg

theorem sound_negate (h : Sound v o) (f : Field) :
    Sound (v.step (.negate f)) (o.step (.negate f)) := by
  refine ⟨fun g hparsed hg => ?_,h.passed,h.published⟩
  obtain ⟨sentences,horigin,hmem⟩ := h.pending g hparsed hg
  by_cases hfield : g = f
  · subst hfield
    refine ⟨o.sentence :: sentences,?_,List.forall_mem_cons.mpr ⟨.inl rfl,hmem⟩⟩
    simp only [Origins.step,Function.update_self,horigin,Option.map_some]
  · simp only [Origins.step,Function.update_of_ne hfield]
    exact ⟨sentences,horigin,hmem⟩

theorem sound_matched (h : Sound v o) : Sound (v.step .matched) (o.step .matched) := by
  refine ⟨fun f hparsed hf => ?_,fun _ => List.mem_cons_self,fun f hparsed hf => ?_⟩
  · obtain ⟨sentences,horigin,hmem⟩ := h.pending f hparsed hf
    exact ⟨sentences,horigin,fun k hk => (hmem k hk).imp id (List.mem_cons_of_mem _)⟩
  · exact (h.published f hparsed hf).cons _ _ _

theorem sound_published (h : Sound v o) (type : SentenceType) :
    Sound (v.step (.published type)) (o.step (.published type)) := by
  refine ⟨fun f hparsed hf => ?_,fun _ => List.mem_cons_self,fun f hparsed hf => ?_⟩
  · obtain ⟨sentences,horigin,hmem⟩ := h.pending f hparsed hf
    exact ⟨sentences,horigin,fun k hk => (hmem k hk).imp id (List.mem_cons_of_mem _)⟩
  · simp only [Vouched.step] at hf
    simp only [Origins.step]
    by_cases hfield : f ∈ type.fields
    · rw [if_pos hfield] at hf
      rw [if_pos hfield]
      obtain ⟨sentences,horigin,hmem⟩ := h.pending f hparsed hf
      refine ⟨sentences,horigin,fun k hk => ?_⟩
      rcases hmem k hk with rfl | hmatching
      · exact List.mem_cons_self
      · exact List.mem_cons_of_mem _ hmatching
    · rw [if_neg hfield] at hf
      rw [if_neg hfield]
      exact (h.published f hparsed hf).cons _ _ _

theorem sound_step (h : Sound v o) (e : Effect) : Sound (v.step e) (o.step e) := by
  cases e with
  | idle => exact h
  | begins => exact sound_begins h
  | set f value => exact sound_set h f value
  | negate f => exact sound_negate h f
  | matched => exact sound_matched h
  | published type => exact sound_published h type

theorem sound_observe (h : Sound v o) (event : Event) :
    Sound (event.observe Vouched.step v) (event.observe Origins.step o) := by
  cases event with
  | effect e => exact sound_step h e
  | stored _ => exact h
  | unfixed _ _ => exact h

/-- Whatever the events are, what is vouched for comes from sentences with a matching
checksum. -/
theorem sound_vouched (done : List Event) : Sound (vouched done) (origins done) := by
  have hfold {v : Vouched} {o : Origins} (h : Sound v o) :
      Sound (done.foldl (Event.observe Vouched.step) v)
        (done.foldl (Event.observe Origins.step) o) := by
    induction done generalizing v o with
    | nil => exact h
    | cons event done ih => exact ih (sound_observe h event)
  exact hfold sound_initial

theorem parsed_of_vouchedFor {done : List Event} {event : Event} (h : VouchedFor done event) :
    Parsed done event := by
  cases event with
  | effect _ => exact trivial
  | unfixed _ _ => exact trivial
  | stored impact =>
    intro f hf
    have himpact : f ∈ impactFields := by
      simp only [parsedFields,impactFields,List.mem_cons,List.not_mem_nil,or_false] at hf ⊢
      tauto
    exact (sound_vouched done).published f hf (h f himpact)

end Sound

end Pyrn.Gps
