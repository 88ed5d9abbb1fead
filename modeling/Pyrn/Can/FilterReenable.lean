import Pyrn.Can.FilterInOrder

/-!
# Disabling an identifier and requesting it again

`can_unfilter` marks the entry that has the identifier without its bus, and the request that
follows does not know a marked entry again: on the first bus it inserts a second one.
-/

namespace Pyrn.Can

open HalfWords AcceptanceFilter

/-- The entry of the identifier on the first bus. -/
def FilterCall.plain (call : FilterCall) : Half := call.id.setWidth 16

/-- A marked entry. -/
def mark (r x : Half) : Half := if x = r then x ||| 0x1000 else x

/-- The filter after the identifier of a call has been disabled. -/
def unfiltered (st : AcceptanceFilter) (call : FilterCall) : AcceptanceFilter :=
  st.canUnfilter (call.id.setWidth 32) .CANStandard

def SameEnabled (L L' : List Half) : Prop := ∀ e,(e ∈ L ∧ Enabled e) ↔ (e ∈ L' ∧ Enabled e)

/-- Disabling the identifier of a call and calling again leaves the same enabled entries. -/
def Restores (st : AcceptanceFilter) (call : FilterCall) : Prop :=
  SameEnabled (setFilter (unfiltered st call) call).region st.region

section Mark

variable {mask : Nat → Word} {call : FilterCall}

theorem halves_marked (r : Half) (w : Word) :
    upper (marked (wide r) w) = mark r (upper w) ∧
      lower (marked (wide r) w) = mark r (lower w) := by
  have hup28 : upper ((1 : Word) <<< 28) = 0x1000 := rfl
  have hlow28 : lower ((1 : Word) <<< 28) = 0#16 := rfl
  have hup12 : upper ((1 : Word) <<< 12) = 0#16 := rfl
  have hlow12 : lower ((1 : Word) <<< 12) = 0x1000 := rfl
  rw [marked,ushiftRight_eq,mark,mark]
  by_cases hupper : upper w = r
  · rw [if_pos (wide_inj.mpr hupper),if_pos hupper]
    simp only [and_lowMask_eq,lower_or,hlow28,BitVec.or_zero]
    by_cases hlower : lower w = r
    · rw [if_pos (wide_inj.mpr hlower),if_pos hlower,upper_or,upper_or,lower_or,lower_or,hup28,
        hlow28,hup12,hlow12,BitVec.or_zero,BitVec.or_zero]
      exact ⟨rfl,rfl⟩
    · rw [if_neg (mt wide_inj.mp hlower),if_neg hlower,upper_or,lower_or,hup28,hlow28,
        BitVec.or_zero]
      exact ⟨rfl,rfl⟩
  · rw [if_neg (mt wide_inj.mp hupper),if_neg hupper]
    simp only [and_lowMask_eq]
    by_cases hlower : lower w = r
    · rw [if_pos (wide_inj.mpr hlower),if_pos hlower,upper_or,lower_or,hup12,hlow12,
        BitVec.or_zero]
      exact ⟨rfl,rfl⟩
    · rw [if_neg (mt wide_inj.mp hlower),if_neg hlower]
      exact ⟨rfl,rfl⟩

theorem markFrom_apply (r : Half) (rounds : Nat) (i : Nat) (mask : Nat → Word) (j : Nat) :
    markFrom (wide r) rounds i mask j =
      if i ≤ j ∧ j < i + rounds then marked (wide r) (mask j) else mask j := by
  induction rounds generalizing i mask with
  | zero => rw [markFrom,if_neg (by omega)]
  | succ rounds ih =>
    rw [markFrom,ih]
    by_cases hhere : j = i
    · subst hhere
      rw [if_neg (by omega),if_pos (by omega),Function.update_self]
    · rw [Function.update_of_ne hhere]
      exact if_congr (by omega) rfl rfl

theorem FilterCall.plain_facts (call : FilterCall) :
    IsEntry call.plain ∧ call.plain < call.plain ||| 0x1000 ∧
      (call.plain ||| 0x1000).msb = false ∧ ¬Enabled (call.plain ||| 0x1000) := by
  have hplain : IsEntry (FilterCall.mk .can1 call.id).entry := (FilterCall.mk .can1 call.id).isEntry
  have hall : ∀ id : BitVec 11,(id.setWidth 16 : Half) < id.setWidth 16 ||| 0x1000 ∧
      (id.setWidth 16 ||| 0x1000 : Half).msb = false ∧
        ¬Enabled (id.setWidth 16 ||| 0x1000 : Half) := by decide +kernel
  exact ⟨hplain,hall call.id⟩

theorem FilterCall.entry_of_can2 {call : FilterCall} (hbus : call.bus = .can2) :
    call.plain < call.entry ∧ call.plain ||| 0x1000 < call.entry := by
  have hall : ∀ id : BitVec 11,(id.setWidth 16 : Half) < id.setWidth 16 ||| 0x2000 ∧
      (id.setWidth 16 ||| 0x1000 : Half) < id.setWidth 16 ||| 0x2000 := by decide +kernel
  have hentry : call.entry = call.plain ||| 0x2000 := by rw [entry,hbus,plain]
  rw [hentry]
  exact hall call.id

end Mark

section Unfiltered

variable {st : AcceptanceFilter} {call : FilterCall} {ids : List Half}

/-- Disabling an identifier marks its entries, up to the last one that is counted. -/
theorem exists_unfiltered (call : FilterCall) (hpos : 1 ≤ st.canAccfCount)
    (hroom : st.canAccfCount < 1022) :
    ∃ mask,unfiltered st call = { st with mask := mask } ∧
      ∀ j,mask j = if j < (st.canAccfCount - 1) / 2 + 1 then
        marked (wide call.plain) (st.mask j) else st.mask j := by
  have hall : ∀ id : BitVec 11,(id.setWidth 32 : Word) = (id.setWidth 16 : Half).setWidth 32 := by
    decide +kernel
  have hid : call.id.setWidth 32 = wide call.plain := hall call.id
  have hbound : (st.canAccfCount + 0xFFFFFFFF) % 0x100000000 / 2 = (st.canAccfCount - 1) / 2 := by
    omega
  refine ⟨markFrom (wide call.plain) ((st.canAccfCount - 1) / 2 + 1) 0 st.mask,?_,fun j => ?_⟩
  · rw [unfiltered,canUnfilter,if_pos rfl]
    simp only
    rw [hid,hbound]
  · rw [markFrom_apply]
    exact if_congr (by omega) rfl rfl

/-- The table with its marks: the padding is not touched. -/
theorem holds_marked {mask : Nat → Word} (hholds : HoldsTable st ids) (hpos : 1 ≤ st.canAccfCount)
    (hmask : ∀ j,mask j = if j < (st.canAccfCount - 1) / 2 + 1 then
      marked (wide call.plain) (st.mask j) else st.mask j) :
    HoldsTable { st with mask := mask } (ids.map (mark call.plain)) := by
  have hcount := hholds.count
  have hpad : mark call.plain 0xFFFF = 0xFFFF := if_neg call.plain_facts.1.ne_pad.symm
  refine ⟨?_,hholds.sffSa,hholds.sffGrpSa,fun _ => ?_⟩
  · rw [List.length_map]
    exact hcount
  · have hmarks : ids.map (mark call.plain) ++ List.replicate
        (2 * (st.canAccfCount / 2) + 2 - (ids.map (mark call.plain)).length) 0xFFFF =
          (entries st.mask (2 * (st.canAccfCount / 2) + 2)).map (mark call.plain) := by
      rw [hholds.table (by omega),List.map_append,List.map_replicate,hpad,List.length_map]
    refine Eq.trans ?_ hmarks.symm
    apply entries_eq
    · rw [List.length_map,entries_length]
    · intro k hk
      have hin : k < 2 * (st.canAccfCount / 2) + 2 := hk
      rw [List.getElem?_map,entries_getElem? _ hin,Option.map_some,half,half]
      simp only [hmask]
      obtain ⟨hupper,hlower⟩ := halves_marked call.plain (st.mask (k / 2))
      by_cases hword : k / 2 < (st.canAccfCount - 1) / 2 + 1
      · rw [if_pos hword,hupper,hlower]
        split_ifs <;> rfl
      · -- behind the counted entries lies padding, which the loop does not reach
        have hentry := half_of_holds hholds (by omega) hin
        rw [List.getElem?_append_right (by omega)] at hentry
        have hhalf := List.eq_of_mem_replicate (List.mem_of_getElem? hentry)
        rw [half] at hhalf
        rw [if_neg hword,hhalf,hpad]

/-- What the marks do, as one step. -/
structure Marked (st : AcceptanceFilter) (call : FilterCall) (ids : List Half)
    (st₁ : AcceptanceFilter) : Prop where
  count : st₁.canAccfCount = st.canAccfCount
  holds : HoldsTable st₁ (ids.map (mark call.plain))
  next : ∀ i,st.canAccfCount ≤ 2 * i → st₁.mask i = st.mask i

theorem marked_unfiltered (hholds : HoldsTable st ids) (hpos : 1 ≤ st.canAccfCount)
    (hroom : st.canAccfCount < 1022) : Marked st call ids (unfiltered st call) := by
  obtain ⟨mask,heq,hmask⟩ := exists_unfiltered call hpos hroom
  rw [heq]
  refine ⟨rfl,holds_marked hholds hpos hmask,fun i hi => ?_⟩
  exact (hmask i).trans (if_neg (by omega))

theorem map_mark_of_notMem {r : Half} (hr : r ∉ ids) : ids.map (mark r) = ids := by
  have hsame : ids.map (mark r) = ids.map id := by
    apply List.map_congr_left
    intro x hx
    apply if_neg
    rintro rfl
    exact hr hx
  rw [hsame,List.map_id]

end Unfiltered

section First

variable {st st₁ : AcceptanceFilter} {call : FilterCall} {calls : List FilterCall}
  {A B : List Half}

/-- On the first bus the marked entry takes its place behind the new one. -/
theorem map_mark_split (hids : Requested (A ++ call.entry :: B) calls)
    (hbus : call.plain = call.entry) :
    (A ++ call.entry :: B).map (mark call.plain) = A ++ (call.entry ||| 0x1000) :: B ∧
      (∀ a ∈ A,a < call.entry) ∧ ∀ b ∈ (call.entry ||| 0x1000) :: B,call.entry < b := by
  obtain ⟨-,hback,hcross⟩ := List.pairwise_append.mp hids.sorted
  obtain ⟨hB,-⟩ := List.pairwise_cons.mp hback
  have hA : ∀ a ∈ A,a < call.entry := fun a ha => hcross a ha _ List.mem_cons_self
  have hmark := call.plain_facts.2.1
  rw [hbus] at hmark ⊢
  refine ⟨?_,hA,List.forall_mem_cons.mpr ⟨hmark,hB⟩⟩
  rw [List.map_append,List.map_cons,map_mark_of_notMem fun h => lt_irrefl _ (hA _ h),
    map_mark_of_notMem fun h => lt_irrefl _ (hB _ h),mark,if_pos rfl]

/-- A table with a new word at its end has the same enabled entries if the word adds none. -/
theorem sameEnabled_next {L L' : List Half} {u l : Half}
    (hsame : ∀ e,Enabled e → (e ∈ L ↔ e ∈ L')) :
    SameEnabled (L ++ [u,l]) L' ↔ ∀ x ∈ [u,l],Enabled x → x ∈ L' := by
  constructor
  · intro h x hx henabled
    exact ((h x).mp ⟨List.mem_append_right _ hx,henabled⟩).1
  · intro h e
    rw [List.mem_append]
    constructor
    · rintro ⟨hmem | hnew,henabled⟩
      · exact ⟨(hsame e henabled).mp hmem,henabled⟩
      · exact ⟨h e hnew henabled,henabled⟩
    · rintro ⟨hmem,henabled⟩
      exact ⟨.inl ((hsame e henabled).mpr hmem),henabled⟩

/-- When an enabled entry has been lost, the new word has to bring it back as well. -/
theorem sameEnabled_next_lost {L L' : List Half} {u l y : Half} (hy : Enabled y) (hmem : y ∈ L')
    (hlost : y ∉ L) (hfront : ∀ e,Enabled e → e ∈ L → e ∈ L')
    (hkept : ∀ e,Enabled e → e ∈ L' → e ∈ L ∨ e = y) :
    SameEnabled (L ++ [u,l]) L' ↔ (∀ x ∈ [u,l],Enabled x → x ∈ L') ∧ y ∈ [u,l] := by
  constructor
  · intro h
    refine ⟨fun x hx hx' => ((h x).mp ⟨List.mem_append_right _ hx,hx'⟩).1,?_⟩
    obtain ⟨hin,-⟩ := (h y).mpr ⟨hmem,hy⟩
    rcases List.mem_append.mp hin with hold | hnew
    · exact absurd hold hlost
    · exact hnew
  · rintro ⟨hnext,hhere⟩ e
    constructor
    · rintro ⟨hin,he⟩
      rcases List.mem_append.mp hin with hold | hnew
      · exact ⟨hfront e he hold,he⟩
      · exact ⟨hnext e hnew he,he⟩
    · rintro ⟨hin,he⟩
      rcases hkept e he hin with hold | rfl
      · exact ⟨List.mem_append_left _ hold,he⟩
      · exact ⟨List.mem_append_right _ hhere,he⟩

theorem mem_padded_iff {ids : List Half} {r : Nat} {x : Half} (hx : Enabled x) :
    x ∈ ids ++ List.replicate r 0xFFFF ↔ x ∈ ids := by
  have hne : x ≠ 0xFFFF := by
    rintro rfl
    exact absurd hx (by decide)
  rw [List.mem_append]
  exact or_iff_left fun hpad => hne (List.eq_of_mem_replicate hpad)

/-- The marked entry is not one of the enabled ones. -/
theorem mem_marked_iff (hbus : call.plain = call.entry) {x : Half} (hx : Enabled x) :
    x ∈ A ++ call.entry :: (call.entry ||| 0x1000) :: B ↔ x ∈ A ++ call.entry :: B := by
  have hmark := call.plain_facts.2.2.2
  rw [hbus] at hmark
  have hne : x ≠ call.entry ||| 0x1000 := by
    rintro rfl
    exact hmark hx
  rw [List.mem_append,List.mem_append,List.mem_cons,List.mem_cons,List.mem_cons,or_iff_right hne]

/-- The word that a new entry adds to the region has no enabled entry that is not listed. -/
def NextWordKnown (st : AcceptanceFilter) : Prop :=
  ∀ x ∈ [upper (st.mask ((st.canAccfCount + 1) / 2)),lower (st.mask ((st.canAccfCount + 1) / 2))],
    Enabled x → Listed st x

/-- No entry is larger, besides padding. -/
def Largest (st : AcceptanceFilter) (e : Half) : Prop :=
  ∀ k < st.canAccfCount,half st.mask k ≤ e ∨ half st.mask k = 0xFFFF

instance (st : AcceptanceFilter) : Decidable (NextWordKnown st) :=
  List.decidableBAll (fun x => Enabled x → Listed st x) _

instance (st : AcceptanceFilter) (e : Half) : Decidable (Largest st e) :=
  inferInstanceAs (Decidable (∀ k < st.canAccfCount,half st.mask k ≤ e ∨ half st.mask k = 0xFFFF))

theorem nextWordKnown_iff {ids : List Half} {r : Nat} (hholds : HoldsTable st ids) :
    NextWordKnown st ↔
      ∀ x ∈ [upper (st.mask ((st.canAccfCount + 1) / 2)),
        lower (st.mask ((st.canAccfCount + 1) / 2))],
        Enabled x → x ∈ ids ++ List.replicate r 0xFFFF := by
  apply forall₂_congr
  intro x _
  apply imp_congr_right
  intro henabled
  rw [mem_padded_iff henabled]
  apply listed_iff hholds
  rintro rfl
  exact absurd henabled (by decide)

theorem largest_iff (hids : Requested (A ++ call.entry :: B) calls)
    (hholds : HoldsTable st (A ++ call.entry :: B)) : Largest st call.entry ↔ B = [] := by
  have hcount := hholds.count
  rw [List.length_append,List.length_cons] at hcount
  obtain ⟨-,hback,hcross⟩ := List.pairwise_append.mp hids.sorted
  obtain ⟨hB,-⟩ := List.pairwise_cons.mp hback
  constructor
  · intro hlargest
    cases B with
    | nil => rfl
    | cons b B =>
      rw [List.length_cons] at hcount
      have hentry := half_of_holds hholds (by omega)
        (show A.length + 1 < 2 * (st.canAccfCount / 2) + 2 by omega)
      rw [List.append_assoc,List.getElem?_append_right (by omega),Nat.add_sub_cancel_left] at hentry
      have hb : half st.mask (A.length + 1) = b := (Option.some.inj hentry).symm
      rcases hlargest (A.length + 1) (by omega) with hle | hpad
      · rw [hb] at hle
        exact absurd (hB b List.mem_cons_self) hle.not_gt
      · have hmem : b ∈ A ++ call.entry :: b :: B := by simp
        rw [hb] at hpad
        exact absurd hpad (hids.isEntry hmem).ne_pad
  · rintro rfl k hk
    have hentry := half_of_holds hholds (by omega)
      (show k < 2 * (st.canAccfCount / 2) + 2 by omega)
    rcases List.mem_append.mp (List.mem_of_getElem? hentry) with hmem | hpad
    · rcases List.mem_append.mp hmem with hA | he
      · exact .inl (hcross _ hA _ List.mem_cons_self).le
      · exact .inl (List.mem_singleton.mp he).le
    · exact .inr (List.eq_of_mem_replicate hpad)

/-- What a repeated request must find on the first bus: with an even count the largest entry, as
the largest is lost; with an odd count nothing new in the next word, where an entry that has been
requested twice may hide that the largest is lost. -/
def RefitsFirst (st : AcceptanceFilter) (e : Half) : Prop :=
  if st.canAccfCount % 2 = 0 then Largest st e
  else NextWordKnown st ∧ (Twice st → Largest st e ∨ half st.mask 1 ∈
    [upper (st.mask ((st.canAccfCount + 1) / 2)),lower (st.mask ((st.canAccfCount + 1) / 2))])

instance (st : AcceptanceFilter) (e : Half) : Decidable (RefitsFirst st e) :=
  inferInstanceAs (Decidable (if st.canAccfCount % 2 = 0 then Largest st e
    else NextWordKnown st ∧ (Twice st → Largest st e ∨ half st.mask 1 ∈
      [upper (st.mask ((st.canAccfCount + 1) / 2)),
        lower (st.mask ((st.canAccfCount + 1) / 2))])))

theorem msb_marked (hids : Requested (A ++ call.entry :: B) calls)
    (hbus : call.plain = call.entry) {e : Half}
    (he : e ∈ A ++ (call.entry ||| 0x1000) :: B) : e.msb = false := by
  rcases List.mem_append.mp he with hfront | hback
  · exact (hids.isEntry (List.mem_append_left _ hfront)).msb
  · rcases List.mem_cons.mp hback with rfl | hlater
    · rw [← hbus]
      exact call.plain_facts.2.2.1
    · exact (hids.isEntry (List.mem_append_right _ (List.mem_cons_of_mem _ hlater))).msb

theorem restores_iff_one (hids : Requested (A ++ call.entry :: B) calls)
    (hholds : HoldsTable st (A ++ call.entry :: B)) (hbus : call.plain = call.entry)
    (hmarked : Marked st call (A ++ call.entry :: B) st₁) (hn : st.canAccfCount = 1) :
    SameEnabled (setFilter st₁ call).region st.region ↔ RefitsFirst st call.entry := by
  have hcount := hholds.count
  rw [List.length_append,List.length_cons] at hcount
  obtain ⟨rfl,rfl⟩ : A = [] ∧ B = [] :=
    ⟨List.length_eq_zero_iff.mp (by omega),List.length_eq_zero_iff.mp (by omega)⟩
  obtain ⟨hmap,-,hlt⟩ := map_mark_split hids hbus
  have hn₁ : st₁.canAccfCount = 1 := hmarked.count.trans hn
  have htable := hmarked.holds.table (by omega)
  rw [hn₁,hmap] at htable
  have hpair : [upper (st₁.mask 0),lower (st₁.mask 0)] =
    [call.entry ||| 0x1000,0xFFFF] := htable
  have hword := (List.cons.inj hpair).1
  obtain ⟨hupper,hlower⟩ :=
    halves_secondEntry call.entry (st₁.mask 0) call.isEntry.enable
  have hgt := hlt _ List.mem_cons_self
  rw [hword,min_eq_right hgt.le] at hupper
  rw [hword,if_neg hgt.ne',max_eq_left hgt.le] at hlower
  have hregion : (setFilter st₁ call).region =
      ([] ++ call.entry :: (call.entry ||| 0x1000) :: []) ++
        [upper (st.mask ((st.canAccfCount + 1) / 2)),
          lower (st.mask ((st.canAccfCount + 1) / 2))] := by
    rw [setFilter_one hn₁,region_counted,hn₁,hn,entries_add_two,← hmarked.next 1 (by omega)]
    have hfirst : entries (Function.update st₁.mask 0
        (secondEntry (wide call.entry) (st₁.mask 0))) (2 * ((1 + 1) / 2)) =
          [upper (secondEntry (wide call.entry) (st₁.mask 0)),
            lower (secondEntry (wide call.entry) (st₁.mask 0))] := by
      rw [← Function.update_self 0 (secondEntry (wide call.entry) (st₁.mask 0))
        st₁.mask]
      rfl
    rw [hfirst,hupper,hlower]
    rfl
  have hnot : ¬Twice st := by
    intro htwice
    have hentry := half_of_holds hholds (by omega)
      (show 0 < 2 * (st.canAccfCount / 2) + 2 by omega)
    have he : half st.mask 0 = call.entry := (Option.some.inj hentry).symm
    rw [Twice,hn,he] at htwice
    exact call.isEntry.ne_pad htwice
  have hodd : ¬st.canAccfCount % 2 = 0 := by omega
  rw [RefitsFirst,if_neg hodd,and_iff_left fun h => absurd h hnot,hregion,
    region_of_holds hholds (by omega),sameEnabled_next,← nextWordKnown_iff hholds]
  intro x hx
  rw [mem_padded_iff hx]
  exact mem_marked_iff hbus hx

theorem restores_iff_odd (hids : Requested (A ++ call.entry :: B) calls)
    (hholds : HoldsTable st (A ++ call.entry :: B)) (hbus : call.plain = call.entry)
    (hmarked : Marked st call (A ++ call.entry :: B) st₁)
    (hroom : st.canAccfCount < 1022) (hn : 2 ≤ st.canAccfCount)
    (hodd : st.canAccfCount % 2 = 1)
    (hlength : st.canAccfCount = (A ++ call.entry :: B).length) :
    SameEnabled (setFilter st₁ call).region st.region ↔ RefitsFirst st call.entry := by
  obtain ⟨hmap,hA,hlt⟩ := map_mark_split hids hbus
  have hcount := hmarked.count
  have hholds₁ := hmarked.holds
  rw [hmap] at hholds₁
  obtain ⟨mask,hcall,hentries,hnext⟩ := entries_insert_odd (fun _ => msb_marked hids hbus)
    hholds₁ (by omega) (by omega) (by omega) (by rw [hcount,hlength]; simp) hA hlt
  rw [hcount] at hentries hnext
  have hhalf : 2 * ((st.canAccfCount + 1) / 2) = st.canAccfCount + 1 := by omega
  have hregion : (setFilter st₁ call).region =
      (A ++ call.entry :: (call.entry ||| 0x1000) :: B) ++
        [upper (st.mask ((st.canAccfCount + 1) / 2)),
          lower (st.mask ((st.canAccfCount + 1) / 2))] := by
    rw [hcall,region_counted,hcount,entries_add_two,hhalf,hentries,hnext,hmarked.next _ (by omega)]
  have hnot : ¬Twice st := by
    rw [twice_iff hids hholds hn]
    omega
  have heven : ¬st.canAccfCount % 2 = 0 := by omega
  rw [RefitsFirst,if_neg heven,and_iff_left fun h => absurd h hnot,hregion,
    region_of_holds hholds (by omega),sameEnabled_next,← nextWordKnown_iff hholds]
  intro x hx
  rw [mem_padded_iff hx]
  exact mem_marked_iff hbus hx

/-- The entries after the request in a table whose last word is padding. -/
theorem exists_refiltered_full (hids : Requested (A ++ call.entry :: B) calls)
    (hbus : call.plain = call.entry) (hmarked : Marked st call (A ++ call.entry :: B) st₁)
    (hroom : st.canAccfCount < 1022) (hn : 2 ≤ st.canAccfCount)
    (hfull : (A ++ call.entry :: B).length ≤ 2 * (st.canAccfCount / 2)) :
    ∃ mask,setFilter st₁ call = st₁.counted mask ∧
      entries mask (2 * (st.canAccfCount / 2) + 2) =
        (A ++ call.entry :: (call.entry ||| 0x1000) :: B).take (2 * (st.canAccfCount / 2)) ++
          [0xFFFF,0xFFFF] ∧
      ∀ i,st.canAccfCount / 2 < i → mask i = st.mask i := by
  obtain ⟨hmap,hA,hlt⟩ := map_mark_split hids hbus
  have hcount := hmarked.count
  have hlength : (A ++ (call.entry ||| 0x1000) :: B).length = (A ++ call.entry :: B).length := by
    simp
  have hholds₁ := hmarked.holds
  rw [hmap] at hholds₁
  have hbefore : A.length < 2 * ((st.canAccfCount - 1) / 2 + 1) := by
    rw [List.length_append,List.length_cons] at hfull
    omega
  obtain ⟨mask,hcall,hentries,hnext⟩ := entries_insert_full (fun _ => msb_marked hids hbus)
    hholds₁ (by omega) (by omega) (by omega) hA hlt (by omega)
  rw [hcount] at hentries hnext
  exact ⟨mask,hcall,hentries,fun i hi => (hnext i hi).trans (hmarked.next i (by omega))⟩

/-- The largest entry is lost with its new place. -/
theorem getLast_lost (hids : Requested (A ++ call.entry :: B) calls)
    (hbus : call.plain = call.entry) (hne : B ≠ []) :
    Enabled (B.getLast hne) ∧ B.getLast hne ∈ A ++ call.entry :: B ∧
      B.getLast hne ∉ (A ++ call.entry :: (call.entry ||| 0x1000) :: B).dropLast := by
  have hmem : B.getLast hne ∈ A ++ call.entry :: B :=
    List.mem_append_right _ (List.mem_cons_of_mem _ (List.getLast_mem hne))
  have henabled := (hids.isEntry hmem).enabled
  refine ⟨henabled,hmem,fun hlost => ?_⟩
  have hdrop : (A ++ call.entry :: (call.entry ||| 0x1000) :: B).dropLast =
      A ++ call.entry :: (call.entry ||| 0x1000) :: B.dropLast := by
    rw [List.dropLast_append_of_ne_nil (List.cons_ne_nil _ _),
      List.dropLast_cons_of_ne_nil (List.cons_ne_nil _ _),List.dropLast_cons_of_ne_nil hne]
  rw [hdrop,mem_marked_iff hbus henabled] at hlost
  have hsorted := hids.sorted
  have hsplit : A ++ call.entry :: B = (A ++ call.entry :: B.dropLast) ++ [B.getLast hne] := by
    rw [List.append_assoc,List.cons_append,List.dropLast_append_getLast hne]
  rw [hsplit] at hsorted
  exact lt_irrefl _ ((List.pairwise_append.mp hsorted).2.2 _ hlost _ (List.mem_singleton_self _))

theorem restores_iff_even (hids : Requested (A ++ call.entry :: B) calls)
    (hholds : HoldsTable st (A ++ call.entry :: B)) (hbus : call.plain = call.entry)
    (hmarked : Marked st call (A ++ call.entry :: B) st₁) (hroom : st.canAccfCount < 1022)
    (hn : 2 ≤ st.canAccfCount) (heven : st.canAccfCount % 2 = 0)
    (hlength : st.canAccfCount = (A ++ call.entry :: B).length) :
    SameEnabled (setFilter st₁ call).region st.region ↔ RefitsFirst st call.entry := by
  obtain ⟨mask,hcall,hentries,-⟩ := exists_refiltered_full hids hbus hmarked hroom hn (by omega)
  have hhalf : 2 * ((st.canAccfCount + 1) / 2) + 2 = 2 * (st.canAccfCount / 2) + 2 := by omega
  have hdrop : (A ++ call.entry :: (call.entry ||| 0x1000) :: B).take
      (2 * (st.canAccfCount / 2)) =
        (A ++ call.entry :: (call.entry ||| 0x1000) :: B).dropLast := by
    rw [List.length_append,List.length_cons] at hlength
    rw [List.dropLast_eq_take,List.length_append,List.length_cons,List.length_cons]
    congr 1
    omega
  rw [RefitsFirst,if_pos heven,largest_iff hids hholds,hcall,region_counted,hmarked.count,hhalf,
    hentries,hdrop,region_of_holds hholds (by omega)]
  constructor
  · intro hsame
    by_contra hne
    obtain ⟨henabled,hmem,hlost⟩ := getLast_lost hids hbus hne
    obtain ⟨hin,-⟩ := (hsame _).mpr ⟨List.mem_append_left _ hmem,henabled⟩
    exact hlost ((@mem_padded_iff _ 2 _ henabled).mp hin)
  · rintro rfl e
    have hfront : (A ++ [call.entry,call.entry ||| 0x1000]).dropLast = A ++ [call.entry] := by
      simp
    rw [hfront]
    constructor
    · rintro ⟨hmem,henabled⟩
      exact ⟨List.mem_append_left _ ((@mem_padded_iff _ 2 _ henabled).mp hmem),henabled⟩
    · rintro ⟨hmem,henabled⟩
      exact ⟨List.mem_append_left _ ((mem_padded_iff henabled).mp hmem),henabled⟩

/-- An entry that has been requested twice, and no other. -/
theorem restores_iff_twice_two (hids : Requested (A ++ call.entry :: B) calls)
    (hholds : HoldsTable st (A ++ call.entry :: B)) (hbus : call.plain = call.entry)
    (hmarked : Marked st call (A ++ call.entry :: B) st₁) (hn : st.canAccfCount = 2)
    (hlength : (A ++ call.entry :: B).length = 1) :
    SameEnabled (setFilter st₁ call).region st.region ↔ RefitsFirst st call.entry := by
  obtain ⟨mask,hcall,hentries,-⟩ :=
    exists_refiltered_full hids hbus hmarked (by omega) (by omega) (by omega)
  rw [List.length_append,List.length_cons] at hlength
  have hA : A = [] := List.length_eq_zero_iff.mp (by omega)
  have hB : B = [] := List.length_eq_zero_iff.mp (by omega)
  subst hA hB
  rw [hn] at hentries
  rw [RefitsFirst,hn,if_pos rfl,largest_iff hids hholds,hcall,region_counted,hmarked.count,hn,
    region_of_holds hholds (by omega)]
  refine iff_of_true (fun e => ?_) rfl
  have hregion : entries mask (2 * ((2 + 1) / 2) + 2) =
      ([] ++ call.entry :: (call.entry ||| 0x1000) :: []) ++ List.replicate 2 0xFFFF := hentries
  rw [hregion]
  constructor
  · rintro ⟨hmem,henabled⟩
    rw [mem_padded_iff henabled,mem_marked_iff hbus henabled] at hmem
    exact ⟨List.mem_append_left _ hmem,henabled⟩
  · rintro ⟨hmem,henabled⟩
    rw [mem_padded_iff henabled,← mem_marked_iff hbus henabled] at hmem
    exact ⟨List.mem_append_left _ hmem,henabled⟩

/-- Two entries of which the smaller or the larger one has been requested twice. -/
theorem restores_iff_twice_three (hids : Requested (A ++ call.entry :: B) calls)
    (hholds : HoldsTable st (A ++ call.entry :: B)) (hbus : call.plain = call.entry)
    (hmarked : Marked st call (A ++ call.entry :: B) st₁) (hn : st.canAccfCount = 3)
    (hlength : (A ++ call.entry :: B).length = 2) :
    SameEnabled (setFilter st₁ call).region st.region ↔ RefitsFirst st call.entry := by
  have htwice : Twice st := (twice_iff hids hholds (by omega)).mpr (by omega)
  obtain ⟨mask,hcall,hentries,hnext⟩ :=
    exists_refiltered_full hids hbus hmarked (by omega) (by omega) (by omega)
  rw [List.length_append,List.length_cons] at hlength
  rw [hn] at hentries
  have hodd : ¬3 % 2 = 0 := by decide
  have hregion : (setFilter st₁ call).region =
      ((A ++ call.entry :: (call.entry ||| 0x1000) :: B).take (2 * (3 / 2)) ++ [0xFFFF,0xFFFF]) ++
        [upper (st.mask 2),lower (st.mask 2)] := by
    rw [hcall,region_counted,hmarked.count,hn,← hentries,← hnext 2 (by omega)]
    exact entries_add_two mask 2
  have hknown := @nextWordKnown_iff st _ (2 * (st.canAccfCount / 2) + 2 -
    (A ++ call.entry :: B).length) hholds
  rw [hn] at hknown
  rw [RefitsFirst,hn,if_neg hodd,imp_iff_right htwice,largest_iff hids hholds,hregion,
    region_of_holds hholds (by omega),hn]
  by_cases hlast : B = []
  · -- the marked entry is lost, the others stay
    subst hlast
    have hA : A.length = 1 := by
      rw [List.length_nil] at hlength
      omega
    have htake : (A ++ [call.entry,call.entry ||| 0x1000]).take (2 * (3 / 2)) =
        A ++ [call.entry] := by
      have hsplit : A ++ [call.entry,call.entry ||| 0x1000] =
        (A ++ [call.entry]) ++ [call.entry ||| 0x1000] := by simp
      rw [hsplit,List.take_left' (by rw [List.length_append,hA]; rfl)]
    rw [htake,sameEnabled_next,← hknown]
    · exact (and_iff_left (.inl rfl)).symm
    · intro e henabled
      rw [mem_padded_iff henabled]
      exact @mem_padded_iff _ 2 _ henabled
  · -- the other entry is lost, unless the new word happens to have it
    obtain ⟨henabled,hmem,hlost⟩ := getLast_lost hids hbus hlast
    have hpos := List.length_pos_iff.mpr hlast
    have hA : A = [] := List.length_eq_zero_iff.mp (by omega)
    obtain ⟨y,rfl⟩ := List.length_eq_one_iff.mp (show B.length = 1 by omega)
    subst hA
    have hy : half st.mask 1 = y := by
      have hentry := half_of_holds hholds (by omega)
        (show 1 < 2 * (st.canAccfCount / 2) + 2 by omega)
      exact (Option.some.inj hentry).symm
    rw [List.getLast_singleton] at henabled hmem hlost
    have htake : ([] ++ call.entry :: (call.entry ||| 0x1000) :: [y]).take (2 * (3 / 2)) =
        ([] ++ call.entry :: (call.entry ||| 0x1000) :: [y]).dropLast := rfl
    rw [htake,hy,or_iff_right hlast,hknown]
    apply sameEnabled_next_lost henabled (List.mem_append_left _ hmem)
    · exact fun hold => hlost ((@mem_padded_iff _ 2 _ henabled).mp hold)
    · intro x hx hold
      have hfront := (@mem_padded_iff _ 2 _ hx).mp hold
      rw [mem_padded_iff hx,← mem_marked_iff hbus hx]
      exact List.mem_of_mem_dropLast hfront
    · intro x hx hin
      rw [mem_padded_iff hx] at hin
      rcases List.mem_cons.mp hin with rfl | hlater
      · exact .inl (List.mem_append_left _ List.mem_cons_self)
      · exact .inr (List.mem_singleton.mp hlater)

theorem restores_iff_first (hids : Requested (A ++ call.entry :: B) calls)
    (hholds : HoldsTable st (A ++ call.entry :: B)) (hbus : call.plain = call.entry)
    (hroom : st.canAccfCount < 1022) : Restores st call ↔ RefitsFirst st call.entry := by
  have hcount := hholds.count
  have hpos : 0 < (A ++ call.entry :: B).length := by
    rw [List.length_append,List.length_cons]
    omega
  have hmarked := @marked_unfiltered st call _ hholds (by omega) hroom
  rw [Restores]
  by_cases hone : st.canAccfCount = 1
  · exact restores_iff_one hids hholds hbus hmarked hone
  · rcases hcount with hlength | ⟨hlength,htwo | hthree⟩
    · rcases Nat.mod_two_eq_zero_or_one st.canAccfCount with heven | hodd
      · exact restores_iff_even hids hholds hbus hmarked hroom (by omega) heven hlength
      · exact restores_iff_odd hids hholds hbus hmarked hroom (by omega) hodd hlength
    · exact restores_iff_twice_two hids hholds hbus hmarked htwo (by omega)
    · exact restores_iff_twice_three hids hholds hbus hmarked hthree (by omega)

end First

section Second

variable {st st₁ : AcceptanceFilter} {call : FilterCall} {calls : List FilterCall}
  {A B : List Half}

/-- What a repeated request must find on the second bus: the identifier is not listed for the
first bus, whose entry is the one that is disabled, and the only entry, which is counted once
more, brings nothing new. -/
def RefitsSecond (st : AcceptanceFilter) (call : FilterCall) : Prop :=
  ¬Listed st call.plain ∧ (st.canAccfCount = 1 → NextWordKnown st)

instance (st : AcceptanceFilter) (call : FilterCall) : Decidable (RefitsSecond st call) :=
  inferInstanceAs (Decidable (¬Listed st call.plain ∧ (st.canAccfCount = 1 → NextWordKnown st)))

theorem mark_ne {r : Half} (hr : r < r ||| 0x1000) (x : Half) : mark r x ≠ r := by
  rw [mark]
  split_ifs with hx
  · rw [hx]
    exact hr.ne'
  · exact hx

/-- Where the entry of the first bus is listed too, it is the one that stays disabled. -/
theorem not_sameEnabled_of_mem (hids : Requested (A ++ call.entry :: B) calls)
    (hholds : HoldsTable st (A ++ call.entry :: B)) (hbus : call.bus = .can2)
    (hmarked : Marked st call (A ++ call.entry :: B) st₁) (hroom : st.canAccfCount < 1022)
    (hmem : call.plain ∈ A ++ call.entry :: B) :
    ¬SameEnabled (setFilter st₁ call).region st.region := by
  obtain ⟨hlt,hmarkedLt⟩ := call.entry_of_can2 hbus
  have henabled := call.plain_facts.1.enabled
  have hcross := (List.pairwise_append.mp hids.sorted).2.2
  have hcount := hholds.count
  have hn : 2 ≤ st.canAccfCount := by
    have hpos : 0 < A.length + B.length := by
      rw [← List.length_append]
      apply @List.length_pos_of_mem _ call.plain
      rcases List.mem_append.mp hmem with hfront | hback
      · exact List.mem_append_left _ hfront
      · exact List.mem_append_right _ ((List.mem_cons.mp hback).resolve_left hlt.ne)
    rw [List.length_append,List.length_cons] at hcount
    omega
  have hmap : (A ++ call.entry :: B).map (mark call.plain) =
      A.map (mark call.plain) ++ call.entry :: B.map (mark call.plain) := by
    rw [List.map_append,List.map_cons,mark,if_neg hlt.ne']
  have hfront : ∀ a ∈ A.map (mark call.plain),a < call.entry := by
    intro a ha
    obtain ⟨x,hx,rfl⟩ := List.mem_map.mp ha
    rw [mark]
    split_ifs with hplain
    · rw [hplain]
      exact hmarkedLt
    · exact hcross x hx _ List.mem_cons_self
  have hholds₁ := hmarked.holds
  have hn₁ : 2 ≤ st₁.canAccfCount := by rw [hmarked.count]; exact hn
  have hlisted : setFilter st₁ call = st₁ := by
    rw [hmap] at hholds₁
    exact setFilter_listed hholds₁ (by rw [hmarked.count]; exact hroom) hn₁ hfront
  intro hsame
  have hin : call.plain ∈ st.region := by
    rw [region_of_holds hholds (by omega)]
    exact List.mem_append_left _ hmem
  have hback := ((hsame call.plain).mpr ⟨hin,henabled⟩).1
  rw [hlisted,region_of_holds hholds₁ (by omega),mem_padded_iff henabled] at hback
  obtain ⟨x,-,hx⟩ := List.mem_map.mp hback
  exact mark_ne call.plain_facts.2.1 x hx

/-- The only entry is kept and counted once more. -/
theorem restores_iff_second_one (hholds : HoldsTable st [call.entry])
    (hholds₁ : HoldsTable st₁ [call.entry]) (hn : st.canAccfCount = 1) (hn₁ : st₁.canAccfCount = 1)
    (hnext : st₁.mask 1 = st.mask 1) :
    SameEnabled (setFilter st₁ call).region st.region ↔ NextWordKnown st := by
  have htable := hholds₁.table (by omega)
  rw [hn₁] at htable
  have hpair : [upper (st₁.mask 0),lower (st₁.mask 0)] = [call.entry,0xFFFF] := htable
  have hword := (List.cons.inj hpair).1
  have hpad := (List.cons.inj (List.cons.inj hpair).2).1
  obtain ⟨hupper,hlower⟩ :=
    halves_secondEntry call.entry (st₁.mask 0) call.isEntry.enable
  rw [hword,min_self] at hupper
  rw [hword,if_pos rfl,hpad] at hlower
  have hregion : (setFilter st₁ call).region = ([call.entry] ++ List.replicate 1 0xFFFF) ++
      [upper (st.mask ((st.canAccfCount + 1) / 2)),
        lower (st.mask ((st.canAccfCount + 1) / 2))] := by
    have hsecond : entries (Function.update st₁.mask 0
        (secondEntry (wide call.entry) (st₁.mask 0))) (2 * ((1 + 1) / 2)) =
          [upper (secondEntry (wide call.entry) (st₁.mask 0)),
            lower (secondEntry (wide call.entry) (st₁.mask 0))] := by
      rw [← Function.update_self 0 (secondEntry (wide call.entry) (st₁.mask 0)) st₁.mask]
      rfl
    have hold : Function.update st₁.mask 0 (secondEntry (wide call.entry) (st₁.mask 0))
        ((1 + 1) / 2) = st.mask ((1 + 1) / 2) :=
      (Function.update_of_ne (by decide) _ _).trans hnext
    rw [setFilter_one hn₁,region_counted,hn₁,hn,entries_add_two,hsecond,hupper,hlower,hold]
    rfl
  rw [hregion,region_of_holds hholds (by omega),sameEnabled_next,← nextWordKnown_iff hholds]
  intro x hx
  rw [mem_padded_iff hx,mem_padded_iff hx]

theorem restores_iff_second (hids : Requested (A ++ call.entry :: B) calls)
    (hholds : HoldsTable st (A ++ call.entry :: B)) (hbus : call.bus = .can2)
    (hroom : st.canAccfCount < 1022) : Restores st call ↔ RefitsSecond st call := by
  have hcount := hholds.count
  rw [List.length_append,List.length_cons] at hcount
  have hmarked := @marked_unfiltered st call _ hholds (by omega) hroom
  have hlisted := listed_iff hholds call.plain_facts.1.ne_pad
  rw [Restores,RefitsSecond,hlisted]
  by_cases hmem : call.plain ∈ A ++ call.entry :: B
  · exact iff_of_false (not_sameEnabled_of_mem hids hholds hbus hmarked hroom hmem)
      fun h => h.1 hmem
  · rw [and_iff_right hmem]
    have hholds₁ := hmarked.holds
    rw [map_mark_of_notMem hmem] at hholds₁
    by_cases hone : st.canAccfCount = 1
    · have hA : A = [] := List.length_eq_zero_iff.mp (by omega)
      have hB : B = [] := List.length_eq_zero_iff.mp (by omega)
      subst hA hB
      rw [imp_iff_right hone]
      exact restores_iff_second_one hholds hholds₁ hone (hmarked.count.trans hone)
        (hmarked.next 1 (by omega))
    · refine iff_of_true ?_ fun h => absurd h hone
      have hn₁ : 2 ≤ (unfiltered st call).canAccfCount := by
        rw [hmarked.count]
        omega
      have hsame : setFilter (unfiltered st call) call = unfiltered st call := by
        refine setFilter_listed hholds₁ (by rw [hmarked.count]; exact hroom) hn₁ fun a ha => ?_
        exact (List.pairwise_append.mp hids.sorted).2.2 a ha _ List.mem_cons_self
      have hregion : (unfiltered st call).region = st.region := by
        rw [region_of_holds hholds₁ (by omega),region_of_holds hholds (by omega),hmarked.count]
      rw [hsame,hregion]
      exact fun e => Iff.rfl

end Second

end Pyrn.Can
