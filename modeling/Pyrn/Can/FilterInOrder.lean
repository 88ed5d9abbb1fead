import Pyrn.Can.FilterTable
import Pyrn.Framework.Run

/-!
# When the filter table is in order

The region between the two pointers is ascending and holds the requested entries once each and
nothing else but padding, after every call, exactly when every call finds a table that it can
serve.
-/

namespace Pyrn.Can

open HalfWords AcceptanceFilter

/-- Both halves of a word are padding. -/
def padWord : Word := 0xFFFFFFFF

/-- What a region must be: ascending, with the entries of the calls once each besides padding. -/
structure TableOf (table : List Half) (calls : List FilterCall) : Prop where
  ascending : table.Pairwise (· ≤ ·)
  once : (table.filter (· ≠ 0xFFFF)).Nodup
  exact : ∀ e,e ∈ table.filter (· ≠ 0xFFFF) ↔ ∃ call ∈ calls,call.entry = e

/-- The requested entries in their order. -/
structure Requested (ids : List Half) (calls : List FilterCall) : Prop where
  sorted : ids.Pairwise (· < ·)
  mem : ∀ e,e ∈ ids ↔ ∃ call ∈ calls,call.entry = e

section Lists

variable {ids : List Half} {calls : List FilterCall}

theorem Requested.isEntry (hids : Requested ids calls) {e : Half} (he : e ∈ ids) : IsEntry e := by
  obtain ⟨call,-,rfl⟩ := (hids.mem e).mp he
  exact call.isEntry

theorem le_pad (e : Half) : e ≤ 0xFFFF := Nat.le_of_lt_succ e.isLt

theorem tableOf_padded (hids : Requested ids calls) (r : Nat) :
    TableOf (ids ++ List.replicate r 0xFFFF) calls := by
  have hfilter : (ids ++ List.replicate r 0xFFFF).filter (· ≠ 0xFFFF) = ids := by
    rw [List.filter_append,List.filter_eq_self.mpr,List.filter_replicate_of_neg (by decide),
      List.append_nil]
    exact fun e he => decide_eq_true (hids.isEntry he).ne_pad
  refine ⟨?_,?_,?_⟩
  · apply List.pairwise_append.mpr
    refine ⟨hids.sorted.imp le_of_lt,?_,?_⟩
    · apply List.pairwise_replicate.mpr
      exact .inr (le_refl _)
    · intro e _ x hx
      rw [List.eq_of_mem_replicate hx]
      exact le_pad e
  · rw [hfilter]
    exact hids.sorted.imp ne_of_lt
  · intro e
    rw [hfilter]
    exact hids.mem e

/-- Behind all requested entries there is only padding. -/
theorem eq_pad_of_tableOf {front back : List Half}
    (hfront : ∀ call ∈ calls,call.entry ∈ front) (htable : TableOf (front ++ back) calls)
    {x : Half} (hx : x ∈ back) : x = 0xFFFF := by
  by_contra hne
  have hback : x ∈ back.filter (· ≠ 0xFFFF) := List.mem_filter.mpr ⟨hx,decide_eq_true hne⟩
  have hall : x ∈ (front ++ back).filter (· ≠ 0xFFFF) := by
    rw [List.filter_append]
    exact List.mem_append_right _ hback
  obtain ⟨call,hcall,rfl⟩ := (htable.exact x).mp hall
  have honce := htable.once
  rw [List.filter_append] at honce
  exact (List.nodup_append.mp honce).2.2 _
    (List.mem_filter.mpr ⟨hfront call hcall,decide_eq_true hne⟩) _ hback rfl

/-- No requested entry lies behind padding. -/
theorem mem_front_of_tableOf {front back : List Half}
    (htable : TableOf (front ++ 0xFFFF :: back) calls) {call : FilterCall} (hcall : call ∈ calls) :
    call.entry ∈ front := by
  have hmem := (List.mem_filter.mp ((htable.exact _).mpr ⟨call,hcall,rfl⟩)).1
  rcases List.mem_append.mp hmem with hfront | hback
  · exact hfront
  · exfalso
    apply call.isEntry.ne_pad
    rcases List.mem_cons.mp hback with heq | hlater
    · exact heq
    · have hle := List.rel_of_pairwise_cons (List.pairwise_append.mp htable.ascending).2.1 hlater
      exact le_antisymm (le_pad _) hle

/-- An entry has its place in an ascending list. -/
theorem exists_split {e : Half} (hsorted : ids.Pairwise (· < ·)) (hnew : e ∉ ids) :
    ∃ A B,ids = A ++ B ∧ (∀ a ∈ A,a < e) ∧ ∀ b ∈ B,e < b := by
  induction ids with
  | nil =>
    have hnone {P : Half → Prop} : ∀ a ∈ [],P a := fun _ h => absurd h List.not_mem_nil
    exact ⟨[],[],rfl,hnone,hnone⟩
  | cons first rest ih =>
    obtain ⟨hfirst,hrest⟩ := List.pairwise_cons.mp hsorted
    rcases lt_or_ge first e with hlt | hge
    · obtain ⟨A,B,rfl,hA,hB⟩ := ih hrest fun h => hnew (List.mem_cons_of_mem _ h)
      exact ⟨first :: A,B,rfl,List.forall_mem_cons.mpr ⟨hlt,hA⟩,hB⟩
    · have hgt : e < first := lt_of_le_of_ne hge fun h => hnew (h ▸ List.mem_cons_self)
      refine ⟨[],first :: rest,rfl,fun _ h => absurd h List.not_mem_nil,?_⟩
      exact List.forall_mem_cons.mpr ⟨hgt,fun b hb => hgt.trans (hfirst b hb)⟩

theorem requested_concat_of_mem {call : FilterCall} (hids : Requested ids calls)
    (hold : call.entry ∈ ids) : Requested ids (calls ++ [call]) := by
  refine ⟨hids.sorted,fun e => ?_⟩
  rw [hids.mem e]
  constructor
  · rintro ⟨other,hother,heq⟩
    exact ⟨other,List.mem_append_left _ hother,heq⟩
  · rintro ⟨other,hother,rfl⟩
    rcases List.mem_append.mp hother with hother | hother
    · exact ⟨other,hother,rfl⟩
    · rw [List.mem_singleton.mp hother]
      exact (hids.mem _).mp hold

theorem requested_concat {call : FilterCall} {A B : List Half} (hids : Requested (A ++ B) calls)
    (hA : ∀ a ∈ A,a < call.entry) (hB : ∀ b ∈ B,call.entry < b) :
    Requested (A ++ call.entry :: B) (calls ++ [call]) := by
  obtain ⟨hfront,hback,hcross⟩ := List.pairwise_append.mp hids.sorted
  constructor
  · apply List.pairwise_append.mpr
    refine ⟨hfront,List.pairwise_cons.mpr ⟨hB,hback⟩,fun a ha b hb => ?_⟩
    rcases List.mem_cons.mp hb with rfl | hb
    · exact hA a ha
    · exact hcross a ha b hb
  · intro e
    have hold := hids.mem e
    rw [List.mem_append] at hold
    rw [List.mem_append,List.mem_cons,or_left_comm,hold]
    constructor
    · rintro (rfl | ⟨other,hother,heq⟩)
      · exact ⟨call,List.mem_append_right _ (List.mem_singleton_self call),rfl⟩
      · exact ⟨other,List.mem_append_left _ hother,heq⟩
    · rintro ⟨other,hother,rfl⟩
      rcases List.mem_append.mp hother with hother | hother
      · exact .inr ⟨other,hother,rfl⟩
      · rw [List.mem_singleton.mp hother]
        exact .inl rfl

end Lists

/-- A filter whose table holds some entries. The count is one too large after an entry has been
requested twice in a row at the beginning; up to the next two entries this does no harm. -/
structure HoldsTable (st : AcceptanceFilter) (ids : List Half) : Prop where
  count : st.canAccfCount = ids.length ∨
    st.canAccfCount = ids.length + 1 ∧ (st.canAccfCount = 2 ∨ st.canAccfCount = 3)
  sffSa : st.sffSa = 0
  sffGrpSa : st.sffGrpSa = if st.canAccfCount = 0 then 0 else (st.canAccfCount / 2 + 1) * 4
  table : st.canAccfCount ≠ 0 → entries st.mask (2 * (st.canAccfCount / 2) + 2) =
    ids ++ List.replicate (2 * (st.canAccfCount / 2) + 2 - ids.length) 0xFFFF

section States

variable {st : AcceptanceFilter} {ids : List Half} {calls : List FilterCall}

theorem region_of_count (hstart : st.sffSa = 0)
    (hend : st.sffGrpSa = (st.canAccfCount / 2 + 1) * 4) :
    st.region = entries st.mask (2 * (st.canAccfCount / 2) + 2) := by
  have hsize : ((st.canAccfCount / 2 + 1) * 4 - 0) / 2 = 2 * (st.canAccfCount / 2) + 2 := by omega
  rw [region,hstart,hend,hsize,entries]
  apply List.map_congr_left
  intro k _
  rw [Nat.zero_div,Nat.zero_add]

theorem region_counted (st : AcceptanceFilter) (mask : Nat → Word) :
    (st.counted mask).region = entries mask (2 * ((st.canAccfCount + 1) / 2) + 2) :=
  @region_of_count (st.counted mask) rfl rfl

theorem region_of_holds (hholds : HoldsTable st ids) (hn : st.canAccfCount ≠ 0) :
    st.region = ids ++ List.replicate (2 * (st.canAccfCount / 2) + 2 - ids.length) 0xFFFF := by
  have hend := hholds.sffGrpSa
  rw [if_neg hn] at hend
  rw [region_of_count hholds.sffSa hend,hholds.table hn]

theorem tableOf_of_holds (hholds : HoldsTable st ids) (hids : Requested ids calls) :
    TableOf st.region calls := by
  by_cases hn : st.canAccfCount = 0
  · have hnone : ids = [] := by
      have hcount := hholds.count
      rw [hn] at hcount
      exact List.length_eq_zero_iff.mp (by omega)
    have hend := hholds.sffGrpSa
    rw [if_pos hn] at hend
    rw [region,hend,Nat.zero_sub,Nat.zero_div,List.range_zero,List.map_nil]
    subst hnone
    exact tableOf_padded hids 0
  · rw [region_of_holds hholds hn]
    exact tableOf_padded hids _

/-- A new entry that makes the table larger by a word: the word must be padding. -/
theorem tableOf_counted_iff {mask : Nat → Word} {r : Nat} (hids : Requested ids calls)
    (heven : (st.canAccfCount + 1) % 2 = 0)
    (hcount : st.canAccfCount + 1 = ids.length ∨
      st.canAccfCount + 1 = ids.length + 1 ∧ st.canAccfCount + 1 = 2)
    (htable : entries mask (st.canAccfCount + 1) = ids ++ List.replicate r 0xFFFF) :
    (TableOf (st.counted mask).region calls ↔ mask ((st.canAccfCount + 1) / 2) = padWord) ∧
      (mask ((st.canAccfCount + 1) / 2) = padWord → HoldsTable (st.counted mask) ids) := by
  have hhalf : 2 * ((st.canAccfCount + 1) / 2) = st.canAccfCount + 1 := by omega
  have hregion : entries mask (2 * ((st.canAccfCount + 1) / 2) + 2) =
      (ids ++ List.replicate r 0xFFFF) ++ [upper (mask ((st.canAccfCount + 1) / 2)),
        lower (mask ((st.canAccfCount + 1) / 2))] := by
    rw [entries_add_two,hhalf,htable]
  have hholds : mask ((st.canAccfCount + 1) / 2) = padWord → HoldsTable (st.counted mask) ids := by
    intro hpad
    refine ⟨?_,rfl,rfl,fun _ => ?_⟩
    · rcases hcount with hcount | ⟨hcount,htwo⟩
      · exact .inl hcount
      · exact .inr ⟨hcount,.inl htwo⟩
    · have hlength := congrArg List.length htable
      rw [entries_length,List.length_append,List.length_replicate] at hlength
      have hmore : 2 * ((st.canAccfCount + 1) / 2) + 2 - ids.length = r + 2 := by omega
      have hup : upper padWord = 0xFFFF := rfl
      have hlow : lower padWord = 0xFFFF := rfl
      change entries mask (2 * ((st.canAccfCount + 1) / 2) + 2) =
        ids ++ List.replicate (2 * ((st.canAccfCount + 1) / 2) + 2 - ids.length) 0xFFFF
      rw [hregion,hpad,hup,hlow,hmore,List.append_assoc,List.replicate_add]
      rfl
  refine ⟨⟨fun hof => ?_,fun hpad => tableOf_of_holds (hholds hpad) hids⟩,hholds⟩
  rw [region_counted,hregion] at hof
  have hfront : ∀ call ∈ calls,call.entry ∈ ids ++ List.replicate r 0xFFFF := by
    intro call hcall
    exact List.mem_append_left _ ((hids.mem _).mpr ⟨call,hcall,rfl⟩)
  apply ext_halves
  · exact eq_pad_of_tableOf hfront hof List.mem_cons_self
  · exact eq_pad_of_tableOf hfront hof (List.mem_cons_of_mem _ List.mem_cons_self)

/-- A call brings the table in order exactly under `ok`, and then the invariant goes on. -/
def StepIs (st : AcceptanceFilter) (call : FilterCall) (calls : List FilterCall) (ok : Prop) :
    Prop :=
  (TableOf (setFilter st call).region (calls ++ [call]) ↔ ok) ∧
    (ok → ∃ ids,Requested ids (calls ++ [call]) ∧ HoldsTable (setFilter st call) ids)

variable {call : FilterCall}

theorem stepIs_of_holds (hids : Requested ids (calls ++ [call]))
    (hholds : HoldsTable (setFilter st call) ids) : StepIs st call calls True :=
  ⟨iff_true_intro (tableOf_of_holds hholds hids),fun _ => ⟨ids,hids,hholds⟩⟩

theorem stepIs_of_not_tableOf (hnot : ¬TableOf (setFilter st call).region (calls ++ [call])) :
    StepIs st call calls False :=
  ⟨iff_false_intro hnot,False.elim⟩

/-- The entries that a table counts, as they lie in the memory. -/
theorem half_of_holds (hholds : HoldsTable st ids) (hn : st.canAccfCount ≠ 0) {k : Nat}
    (hk : k < 2 * (st.canAccfCount / 2) + 2) :
    (ids ++ List.replicate (2 * (st.canAccfCount / 2) + 2 - ids.length) 0xFFFF)[k]? =
      some (half st.mask k) :=
  half_of_entries (hholds.table hn) hk

theorem half_lt_of_split {A B : List Half} (hholds : HoldsTable st (A ++ B))
    (hn : st.canAccfCount ≠ 0) (hA : ∀ a ∈ A,a < call.entry) {k : Nat} (hk : k < A.length)
    (hin : k < 2 * (st.canAccfCount / 2) + 2) : half st.mask k < call.entry := by
  have hentry := half_of_holds hholds hn hin
  rw [List.append_assoc,List.getElem?_append_left hk] at hentry
  exact hA _ (List.mem_of_getElem? hentry)

theorem lt_half_of_split {A B : List Half} (hholds : HoldsTable st (A ++ B))
    (hn : st.canAccfCount ≠ 0) (hB : ∀ b ∈ B,call.entry < b) {k : Nat} (hk : A.length ≤ k)
    (hin : k < 2 * (st.canAccfCount / 2) + 2) : call.entry < half st.mask k := by
  have hentry := half_of_holds hholds hn hin
  rw [List.append_assoc,List.getElem?_append_right hk] at hentry
  rcases List.mem_append.mp (List.mem_of_getElem? hentry) with hb | hpad
  · exact hB _ hb
  · rw [List.eq_of_mem_replicate hpad]
    exact lt_of_le_of_ne (le_pad _) call.isEntry.ne_pad

theorem msb_half_of_holds (hmsb : ∀ e ∈ ids,e.msb = false) (hholds : HoldsTable st ids)
    (hn : st.canAccfCount ≠ 0) {k : Nat} (hk : k < ids.length)
    (hin : k < 2 * (st.canAccfCount / 2) + 2) : (half st.mask k).msb = false := by
  have hentry := half_of_holds hholds hn hin
  rw [List.getElem?_append_left hk] at hentry
  exact hmsb _ (List.mem_of_getElem? hentry)

theorem stepIs_zero (hids : Requested ids calls) (hholds : HoldsTable st ids)
    (hn : st.canAccfCount = 0) : StepIs st call calls True := by
  have hcount := hholds.count
  rw [hn] at hcount
  have hnone : ids = [] := List.length_eq_zero_iff.mp (by omega)
  subst hnone
  have hids' : Requested [call.entry] (calls ++ [call]) :=
    @requested_concat calls call [] [] hids (fun _ h => absurd h List.not_mem_nil)
      fun _ h => absurd h List.not_mem_nil
  apply stepIs_of_holds hids'
  rw [setFilter_zero hn]
  refine ⟨?_,rfl,rfl,fun _ => ?_⟩
  · rw [counted,hn]
    exact .inl rfl
  · simp only [counted,hn]
    have hup : upper (0x0000FFFF : Word) = 0#16 := rfl
    have hlow : lower (0x0000FFFF : Word) = 0xFFFF := rfl
    rw [entries_add_two,Function.update_self,upper_or,lower_or,upper_shiftLeft,lower_shiftLeft,
      lower_wide,hup,hlow,BitVec.zero_or]
    rfl

/-- The second entry: the next word of the memory comes into the region. -/
theorem stepIs_one (hids : Requested ids calls) (hholds : HoldsTable st ids)
    (hn : st.canAccfCount = 1) : StepIs st call calls (st.mask 1 = padWord) := by
  have hcount := hholds.count
  rw [hn] at hcount
  obtain ⟨a,rfl⟩ := List.length_eq_one_iff.mp (show ids.length = 1 by omega)
  have htable := hholds.table (by omega)
  rw [hn] at htable
  have hword : upper (st.mask 0) = a ∧ lower (st.mask 0) = 0xFFFF := by
    have hpair : [upper (st.mask 0),lower (st.mask 0)] = [a,0xFFFF] := htable
    exact ⟨(List.cons.inj hpair).1,(List.cons.inj (List.cons.inj hpair).2).1⟩
  have hnext : (Function.update st.mask 0 (secondEntry (wide call.entry) (st.mask 0))) 1 =
    st.mask 1 := Function.update_of_ne (by decide) _ _
  have hgo {ids' : List Half} {r : Nat} (hids' : Requested ids' (calls ++ [call]))
      (hlen : 2 = ids'.length ∨ 2 = ids'.length + 1 ∧ 2 = 2)
      (hsecond : [upper (secondEntry (wide call.entry) (st.mask 0)),
        lower (secondEntry (wide call.entry) (st.mask 0))] =
          ids' ++ List.replicate r 0xFFFF) : StepIs st call calls (st.mask 1 = padWord) := by
    have hentries : entries (Function.update st.mask 0
        (secondEntry (wide call.entry) (st.mask 0))) (st.canAccfCount + 1) =
          ids' ++ List.replicate r 0xFFFF := by
      rw [hn,← hsecond,← Function.update_self 0 (secondEntry (wide call.entry) (st.mask 0))
        st.mask]
      rfl
    have hiff := @tableOf_counted_iff st ids' (calls ++ [call]) _ r hids' (by omega)
      (by rw [hn]; exact hlen) hentries
    rw [hn] at hiff
    simp only [Nat.reduceAdd,Nat.reduceDiv,hnext] at hiff
    rw [← setFilter_one hn] at hiff
    exact ⟨hiff.1,fun hpad => ⟨ids',hids',hiff.2 hpad⟩⟩
  obtain ⟨hupper,hlower⟩ := halves_secondEntry call.entry (st.mask 0) call.isEntry.enable
  rw [hword.1] at hupper hlower
  rw [hword.2] at hlower
  rcases lt_trichotomy a call.entry with hlt | heq | hgt
  · refine @hgo [a,call.entry] 0 ?_ (.inl rfl) ?_
    · exact @requested_concat calls call [a] [] hids
        (fun x hx => List.mem_singleton.mp hx ▸ hlt) fun _ h => absurd h List.not_mem_nil
    · rw [hupper,hlower,if_neg hlt.ne,min_eq_left hlt.le,max_eq_right hlt.le]
      rfl
  · refine @hgo [a] 1 ?_ (.inr ⟨rfl,rfl⟩) ?_
    · exact requested_concat_of_mem hids (heq ▸ List.mem_singleton_self a)
    · rw [hupper,hlower,if_pos heq,heq,min_self]
      rfl
  · refine @hgo [call.entry,a] 0 ?_ (.inl rfl) ?_
    · exact @requested_concat calls call [] [a] hids (fun _ h => absurd h List.not_mem_nil)
        fun x hx => List.mem_singleton.mp hx ▸ hgt
    · rw [hupper,hlower,if_neg hgt.ne',min_eq_right hgt.le,max_eq_left hgt.le]
      rfl

theorem setFilter_listed {A B : List Half} (hholds : HoldsTable st (A ++ call.entry :: B))
    (hroom : st.canAccfCount < 1022) (hn : 2 ≤ st.canAccfCount)
    (hA : ∀ a ∈ A,a < call.entry) : setFilter st call = st := by
  have hcount := hholds.count
  rw [List.length_append,List.length_cons] at hcount
  have hsame : half st.mask A.length = call.entry := by
    have hhere := half_of_holds hholds (by omega)
      (show A.length < 2 * (st.canAccfCount / 2) + 2 by omega)
    rw [List.append_assoc,List.getElem?_append_right (le_refl _),Nat.sub_self,List.cons_append,
      List.getElem?_cons_zero] at hhere
    exact (Option.some.inj hhere).symm
  exact setFilter_same hroom hn (by omega)
    (fun j hj => half_lt_of_split hholds (by omega) hA hj (by omega)) hsame

theorem stepIs_listed (hids : Requested ids calls) (hholds : HoldsTable st ids)
    (hroom : st.canAccfCount < 1022) (hn : 2 ≤ st.canAccfCount) (hold : call.entry ∈ ids) :
    StepIs st call calls True := by
  apply stepIs_of_holds (requested_concat_of_mem hids hold)
  obtain ⟨A,B,rfl⟩ := List.append_of_mem hold
  have hcross := (List.pairwise_append.mp hids.sorted).2.2
  rw [setFilter_listed hholds hroom hn fun a ha => hcross a ha _ List.mem_cons_self]
  exact hholds

section Insert

variable {A B : List Half}

/-- An insertion into an odd number of entries takes the place of the padding. -/
theorem entries_insert_odd (hmsb : ∀ e ∈ A ++ B,e.msb = false) (hholds : HoldsTable st (A ++ B))
    (hroom : st.canAccfCount < 1022) (hn : 2 ≤ st.canAccfCount) (hodd : st.canAccfCount % 2 = 1)
    (hlength : st.canAccfCount = (A ++ B).length) (hA : ∀ a ∈ A,a < call.entry)
    (hB : ∀ b ∈ B,call.entry < b) :
    ∃ mask,setFilter st call = st.counted mask ∧
      entries mask (st.canAccfCount + 1) = A ++ call.entry :: B ∧
        mask ((st.canAccfCount + 1) / 2) = st.mask ((st.canAccfCount + 1) / 2) := by
  have hcount : st.canAccfCount = A.length + B.length := by rw [hlength,List.length_append]
  have hsize : 2 * (st.canAccfCount / 2) + 2 = st.canAccfCount + 1 := by omega
  have hp : A.length / 2 ≤ st.canAccfCount / 2 := by omega
  have hcall := @setFilter_before st call A.length hroom hn (by omega)
    (fun j hj => half_lt_of_split hholds (by omega) hA hj (by omega))
    (lt_half_of_split hholds (by omega) hB (le_refl _) (by omega))
  have hnot : ¬st.canAccfCount % 2 = 0 := by omega
  rw [pad,if_neg hnot] at hcall
  have htable := hholds.table (by omega)
  rw [List.append_assoc] at htable
  have hinserted := entries_insertAt call.entry htable hp fun k _ heven hk =>
    msb_half_of_holds hmsb hholds (by omega) (by omega) hk
  have hfront : A ++ call.entry :: (B ++ List.replicate
      (2 * (st.canAccfCount / 2) + 2 - (A ++ B).length) 0xFFFF) =
        (A ++ call.entry :: B) ++ List.replicate
          (2 * (st.canAccfCount / 2) + 2 - (A ++ B).length) 0xFFFF := by
    rw [List.append_assoc,List.cons_append]
  have hall : (A ++ call.entry :: B).length = st.canAccfCount + 1 := by
    rw [List.length_append,List.length_cons,hcount]
    omega
  rw [hfront,hsize,List.take_left' hall] at hinserted
  exact ⟨_,hcall,hinserted,insertAt_of_lt call.entry hp (by omega)⟩

theorem stepIs_odd (hids : Requested (A ++ B) calls) (hholds : HoldsTable st (A ++ B))
    (hroom : st.canAccfCount < 1022) (hn : 2 ≤ st.canAccfCount) (hodd : st.canAccfCount % 2 = 1)
    (hlength : st.canAccfCount = (A ++ B).length) (hA : ∀ a ∈ A,a < call.entry)
    (hB : ∀ b ∈ B,call.entry < b) :
    StepIs st call calls (st.mask ((st.canAccfCount + 1) / 2) = padWord) := by
  have hids' := requested_concat hids hA hB
  obtain ⟨mask,hcall,hinserted,hnext⟩ :=
    entries_insert_odd (fun _ he => (hids.isEntry he).msb) hholds hroom hn hodd hlength hA hB
  have hall : (A ++ call.entry :: B).length = st.canAccfCount + 1 := by
    rw [hlength,List.length_append,List.length_append,List.length_cons]
    omega
  have hiff := @tableOf_counted_iff st _ (calls ++ [call]) _ 0 hids' (by omega) (.inl hall.symm)
    (hinserted.trans (List.append_nil _).symm)
  rw [← hcall,hnext] at hiff
  exact ⟨hiff.1,fun hpad => ⟨_,hids',hiff.2 hpad⟩⟩

/-- Behind an even number of entries there are two entries of padding. -/
theorem entries_even (hholds : HoldsTable st ids) (hn : 2 ≤ st.canAccfCount)
    (heven : st.canAccfCount % 2 = 0) (hlength : st.canAccfCount = ids.length) :
    entries st.mask (2 * (st.canAccfCount / 2)) = ids := by
  have htable := hholds.table (by omega)
  have hpads : 2 * (st.canAccfCount / 2) + 2 - ids.length = 2 := by omega
  rw [entries_add_two,hpads] at htable
  refine (List.append_inj htable ?_).1
  rw [entries_length]
  omega

/-- The largest entry goes behind an even number of entries. -/
theorem stepIs_even_last (hids : Requested ids calls) (hholds : HoldsTable st ids)
    (hroom : st.canAccfCount < 1022) (hn : 2 ≤ st.canAccfCount) (heven : st.canAccfCount % 2 = 0)
    (hlength : st.canAccfCount = ids.length) (hA : ∀ a ∈ ids,a < call.entry) :
    StepIs st call calls True := by
  have hholds' : HoldsTable st (ids ++ []) := by rwa [List.append_nil]
  have hlast : (st.canAccfCount - 1) / 2 + 1 = st.canAccfCount / 2 := by omega
  have hcall := setFilter_behind hroom hn fun j hj =>
    half_lt_of_split hholds' (by omega) hA (by omega) (by omega)
  rw [hlast] at hcall
  have hids' : Requested (ids ++ [call.entry]) (calls ++ [call]) :=
    @requested_concat calls call ids [] (by rwa [List.append_nil]) hA
      fun _ h => absurd h List.not_mem_nil
  apply stepIs_of_holds hids'
  have hup : upper (0x0000FFFF : Word) = 0#16 := rfl
  have hlow : lower (0x0000FFFF : Word) = 0xFFFF := rfl
  have hnew : insertBehind st.canAccfCount (st.canAccfCount / 2) (wide call.entry) st.mask
      (st.canAccfCount / 2) = (0x0000FFFF : Word) ||| wide call.entry <<< 16 := by
    rw [insertBehind,if_pos heven,Function.update_self]
  have hold : entries (insertBehind st.canAccfCount (st.canAccfCount / 2) (wide call.entry)
      st.mask) (2 * (st.canAccfCount / 2)) = ids := by
    rw [← entries_even hholds hn heven hlength]
    exact entries_congr fun i hi => Function.update_of_ne (Nat.ne_of_lt hi) _ _
  rw [hcall]
  refine ⟨?_,rfl,rfl,fun _ => ?_⟩
  · left
    rw [List.length_append,List.length_singleton,← hlength]
    rfl
  · have hhalf : 2 * ((st.canAccfCount + 1) / 2) + 2 = 2 * (st.canAccfCount / 2) + 2 := by omega
    have hpads : 2 * (st.canAccfCount / 2) + 2 - (ids ++ [call.entry]).length = 1 := by
      rw [List.length_append,List.length_singleton]
      omega
    simp only [counted]
    rw [hhalf,hpads,entries_pad _ heven,hold,hnew,upper_or,upper_shiftLeft,lower_wide,hup,
      BitVec.zero_or,List.append_assoc]
    rfl

/-- An insertion into a table whose last word is padding loses the entry that is moved there. -/
theorem entries_insert_full (hmsb : ∀ e ∈ A ++ B,e.msb = false) (hholds : HoldsTable st (A ++ B))
    (hroom : st.canAccfCount < 1022) (hn : 2 ≤ st.canAccfCount)
    (hfull : (A ++ B).length ≤ 2 * (st.canAccfCount / 2)) (hA : ∀ a ∈ A,a < call.entry)
    (hB : ∀ b ∈ B,call.entry < b) (hbefore : A.length < 2 * ((st.canAccfCount - 1) / 2 + 1)) :
    ∃ mask,setFilter st call = st.counted mask ∧
      entries mask (2 * (st.canAccfCount / 2) + 2) =
        (A ++ call.entry :: B).take (2 * (st.canAccfCount / 2)) ++ [0xFFFF,0xFFFF] ∧
      ∀ i,st.canAccfCount / 2 < i → mask i = st.mask i := by
  have hcount := hholds.count
  rw [List.length_append] at hcount hfull
  have hcall := @setFilter_before st call A.length hroom hn hbefore
    (fun j hj => half_lt_of_split hholds (by omega) hA hj (by omega))
    (lt_half_of_split hholds (by omega) hB (le_refl _) (by omega))
  have hword : upper (st.mask (st.canAccfCount / 2)) = 0xFFFF := by
    have hhere := half_of_holds hholds (by omega)
      (show 2 * (st.canAccfCount / 2) < 2 * (st.canAccfCount / 2) + 2 by omega)
    rw [List.getElem?_append_right (by rw [List.length_append]; omega),half_even] at hhere
    exact List.eq_of_mem_replicate (List.mem_of_getElem? hhere)
  have htable := hholds.table (by omega)
  rw [List.append_assoc] at htable
  have hinserted := entries_insertAt_full call.entry htable (by omega)
    (by rw [hword]; rfl) fun k _ heven hk =>
      msb_half_of_holds hmsb hholds (by omega) (by rw [List.length_append]; omega) (by omega)
  have hfront : A ++ call.entry :: (B ++ List.replicate
      (2 * (st.canAccfCount / 2) + 2 - (A ++ B).length) 0xFFFF) =
        (A ++ call.entry :: B) ++ List.replicate
          (2 * (st.canAccfCount / 2) + 2 - (A ++ B).length) 0xFFFF := by
    rw [List.append_assoc,List.cons_append]
  rw [hfront,List.take_append_of_le_length (by rw [List.length_append,List.length_cons]; omega),
    hword] at hinserted
  have hp : A.length / 2 ≤ st.canAccfCount / 2 := by omega
  refine ⟨_,hcall,?_,fun i hi => ?_⟩
  · rcases Nat.mod_two_eq_zero_or_one st.canAccfCount with heven | hodd
    · rw [entries_add_two] at hinserted
      obtain ⟨hentries,hlast⟩ := List.append_inj' hinserted rfl
      rw [entries_pad _ heven,hentries,(List.cons.inj hlast).1]
    · rw [pad,if_neg (by omega)]
      exact hinserted
  · refine Eq.trans ?_ (insertAt_of_lt call.entry hp hi)
    rw [pad]
    split_ifs
    · exact Function.update_of_ne (Nat.ne_of_gt hi) _ _
    · rfl

/-- A table that has lost its largest entry is not in order. -/
theorem not_tableOf_of_lost {L back : List Half} (hL : Requested L calls) (hne : L ≠ []) :
    ¬TableOf (L.dropLast ++ 0xFFFF :: back) calls := by
  intro htable
  obtain ⟨call,hcall,hlast⟩ := (hL.mem (L.getLast hne)).mp (List.getLast_mem hne)
  have hfront := mem_front_of_tableOf htable hcall
  have hsorted := hL.sorted
  rw [← List.dropLast_append_getLast hne] at hsorted
  rw [hlast] at hfront
  exact lt_irrefl _ ((List.pairwise_append.mp hsorted).2.2 _ hfront _ (List.mem_singleton_self _))

/-- An entry that is not the largest cannot be inserted into an even number of entries. -/
theorem stepIs_even_lost (hids : Requested (A ++ B) calls) (hholds : HoldsTable st (A ++ B))
    (hroom : st.canAccfCount < 1022) (hn : 2 ≤ st.canAccfCount) (heven : st.canAccfCount % 2 = 0)
    (hlength : st.canAccfCount = (A ++ B).length) (hA : ∀ a ∈ A,a < call.entry)
    (hB : ∀ b ∈ B,call.entry < b) (hne : B ≠ []) : StepIs st call calls False := by
  have hids' := requested_concat hids hA hB
  have hpos := List.length_pos_iff.mpr hne
  have hcount : st.canAccfCount = A.length + B.length := by rw [hlength,List.length_append]
  obtain ⟨mask,hcall,hentries,-⟩ := entries_insert_full (fun _ he => (hids.isEntry he).msb) hholds
    hroom hn (by omega) hA hB (by omega)
  have hhalf : 2 * ((st.canAccfCount + 1) / 2) + 2 = 2 * (st.canAccfCount / 2) + 2 := by omega
  have hdrop : (A ++ call.entry :: B).take (2 * (st.canAccfCount / 2)) =
      (A ++ call.entry :: B).dropLast := by
    rw [List.dropLast_eq_take,List.length_append,List.length_cons]
    congr 1
    omega
  apply stepIs_of_not_tableOf
  rw [hcall,region_counted,hhalf,hentries,hdrop]
  exact not_tableOf_of_lost hids' (by simp)

/-- After an entry has been requested twice, another one takes the place of the padding. -/
theorem stepIs_twice_two (hids : Requested (A ++ B) calls) (hholds : HoldsTable st (A ++ B))
    (hn : st.canAccfCount = 2) (hlength : (A ++ B).length = 1) (hA : ∀ a ∈ A,a < call.entry)
    (hB : ∀ b ∈ B,call.entry < b) : StepIs st call calls True := by
  have hlength' := hlength
  rw [List.length_append] at hlength'
  obtain ⟨mask,hcall,hentries,-⟩ := entries_insert_full (fun _ he => (hids.isEntry he).msb) hholds
    (by omega) (by omega) (by omega) hA hB (by omega)
  have hall : (A ++ call.entry :: B).length = 2 := by
    rw [List.length_append,List.length_cons]
    omega
  apply stepIs_of_holds (requested_concat hids hA hB)
  rw [hcall]
  refine ⟨?_,rfl,rfl,fun _ => ?_⟩
  · right
    rw [hall,counted,hn]
    exact ⟨rfl,.inr rfl⟩
  · rw [hn] at hentries
    rw [List.take_of_length_le (by omega)] at hentries
    simp only [counted,hn]
    rw [hall]
    exact hentries

/-- A third entry is lost after one has been requested twice. -/
theorem stepIs_twice_three (hids : Requested (A ++ B) calls) (hholds : HoldsTable st (A ++ B))
    (hn : st.canAccfCount = 3) (hlength : (A ++ B).length = 2) (hA : ∀ a ∈ A,a < call.entry)
    (hB : ∀ b ∈ B,call.entry < b) : StepIs st call calls False := by
  have hids' := requested_concat hids hA hB
  have hlength' := hlength
  rw [List.length_append] at hlength'
  obtain ⟨mask,hcall,hentries,-⟩ := entries_insert_full (fun _ he => (hids.isEntry he).msb) hholds
    (by omega) (by omega) (by omega) hA hB (by omega)
  have hdrop : (A ++ call.entry :: B).take (2 * (3 / 2)) = (A ++ call.entry :: B).dropLast := by
    rw [List.dropLast_eq_take,List.length_append,List.length_cons]
    congr 1
    omega
  rw [hn,hdrop] at hentries
  apply stepIs_of_not_tableOf
  have hregion : (st.counted mask).region = (A ++ call.entry :: B).dropLast ++
      0xFFFF :: [0xFFFF,upper (mask 2),lower (mask 2)] := by
    rw [region_counted,hn]
    have hsplit : entries mask (2 * ((3 + 1) / 2) + 2) =
        entries mask (2 * (3 / 2) + 2) ++ [upper (mask 2),lower (mask 2)] :=
      entries_add_two mask 2
    rw [hsplit,hentries,List.append_assoc]
    rfl
  rw [hcall,hregion]
  exact not_tableOf_of_lost hids' (by simp)

end Insert

/-- One of the counted entries. -/
def Listed (st : AcceptanceFilter) (e : Half) : Prop :=
  ∃ k < st.canAccfCount,half st.mask k = e

/-- The last entry that is counted is padding. -/
def Twice (st : AcceptanceFilter) : Prop := half st.mask (st.canAccfCount - 1) = 0xFFFF

/-- What a call must find. The second entry needs padding in the next word. An identifier that is
not listed must be larger than all others, or fill up the word that an identifier requested twice
has left, if the count is even; otherwise none may have been requested twice, and the next word
must be padding. -/
def Fits (st : AcceptanceFilter) (call : FilterCall) : Prop :=
  if st.canAccfCount = 0 then True
  else if st.canAccfCount = 1 then st.mask 1 = padWord
  else Listed st call.entry ∨
    if st.canAccfCount % 2 = 0 then
      Twice st ∨ ∀ k < st.canAccfCount,half st.mask k < call.entry
    else ¬Twice st ∧ st.mask ((st.canAccfCount + 1) / 2) = padWord

instance (st : AcceptanceFilter) (e : Half) : Decidable (Listed st e) :=
  inferInstanceAs (Decidable (∃ k < st.canAccfCount,half st.mask k = e))

instance (st : AcceptanceFilter) : Decidable (Twice st) := inferInstanceAs (Decidable (_ = _))

instance (st : AcceptanceFilter) (call : FilterCall) : Decidable (Fits st call) :=
  inferInstanceAs (Decidable (if st.canAccfCount = 0 then True
    else if st.canAccfCount = 1 then st.mask 1 = padWord
    else Listed st call.entry ∨
      if st.canAccfCount % 2 = 0 then
        Twice st ∨ ∀ k < st.canAccfCount,half st.mask k < call.entry
      else ¬Twice st ∧ st.mask ((st.canAccfCount + 1) / 2) = padWord))

theorem listed_iff (hholds : HoldsTable st ids) {e : Half} (he : e ≠ 0xFFFF) :
    Listed st e ↔ e ∈ ids := by
  have hcount := hholds.count
  constructor
  · rintro ⟨k,hk,rfl⟩
    have hentry := half_of_holds hholds (by omega)
      (show k < 2 * (st.canAccfCount / 2) + 2 by omega)
    rcases List.mem_append.mp (List.mem_of_getElem? hentry) with hmem | hpad
    · exact hmem
    · exact absurd (List.eq_of_mem_replicate hpad) he
  · intro hmem
    obtain ⟨k,hk⟩ := List.mem_iff_getElem?.mp hmem
    have hlt : k < ids.length := (List.getElem?_eq_some_iff.mp hk).1
    have hentry := half_of_holds hholds (by omega)
      (show k < 2 * (st.canAccfCount / 2) + 2 by omega)
    rw [List.getElem?_append_left hlt,hk] at hentry
    exact ⟨k,by omega,(Option.some.inj hentry).symm⟩

theorem twice_iff (hids : Requested ids calls) (hholds : HoldsTable st ids)
    (hn : 2 ≤ st.canAccfCount) : Twice st ↔ st.canAccfCount = ids.length + 1 := by
  have hcount := hholds.count
  have hentry := half_of_holds hholds (by omega)
    (show st.canAccfCount - 1 < 2 * (st.canAccfCount / 2) + 2 by omega)
  constructor
  · intro htwice
    by_contra hnot
    rw [List.getElem?_append_left (by omega),htwice] at hentry
    exact (hids.isEntry (List.mem_of_getElem? hentry)).ne_pad rfl
  · intro hlength
    rw [List.getElem?_append_right (by omega)] at hentry
    exact List.eq_of_mem_replicate (List.mem_of_getElem? hentry)

/-- The largest entry comes last. -/
theorem forall_half_lt_iff {A B : List Half} (hholds : HoldsTable st (A ++ B))
    (hn : 2 ≤ st.canAccfCount) (hlength : st.canAccfCount = (A ++ B).length)
    (hA : ∀ a ∈ A,a < call.entry) (hB : ∀ b ∈ B,call.entry < b) :
    (∀ k < st.canAccfCount,half st.mask k < call.entry) ↔ B = [] := by
  rw [List.length_append] at hlength
  constructor
  · intro hall
    by_contra hne
    have hpos := List.length_pos_iff.mpr hne
    exact lt_asymm (hall A.length (by omega))
      (lt_half_of_split hholds (by omega) hB (le_refl _) (by omega))
  · rintro rfl k hk
    rw [List.length_nil] at hlength
    exact half_lt_of_split hholds (by omega) hA (by omega) (by omega)

theorem StepIs.congr {ok ok' : Prop} (hstep : StepIs st call calls ok) (hiff : ok ↔ ok') :
    StepIs st call calls ok' :=
  ⟨hstep.1.trans hiff,fun h => hstep.2 (hiff.mpr h)⟩

/-- A call on a table in order leaves one exactly when it fits. -/
theorem stepIs_fits (hids : Requested ids calls) (hholds : HoldsTable st ids)
    (hroom : st.canAccfCount < 1022) : StepIs st call calls (Fits st call) := by
  by_cases hzero : st.canAccfCount = 0
  · rw [Fits,if_pos hzero]
    exact stepIs_zero hids hholds hzero
  · by_cases hone : st.canAccfCount = 1
    · rw [Fits,if_neg hzero,if_pos hone]
      exact stepIs_one hids hholds hone
    · have hn : 2 ≤ st.canAccfCount := by omega
      rw [Fits,if_neg hzero,if_neg hone,listed_iff hholds call.isEntry.ne_pad]
      by_cases hold : call.entry ∈ ids
      · exact (stepIs_listed hids hholds hroom hn hold).congr (iff_of_true trivial (.inl hold))
      · obtain ⟨A,B,rfl,hA,hB⟩ := exists_split hids.sorted hold
        rw [or_iff_right hold,twice_iff hids hholds hn]
        rcases hholds.count with hlength | ⟨hlength,htwo | hthree⟩
        · have hnot : ¬st.canAccfCount = (A ++ B).length + 1 := by omega
          by_cases heven : st.canAccfCount % 2 = 0
          · rw [if_pos heven,or_iff_right hnot,forall_half_lt_iff hholds hn hlength hA hB]
            by_cases hlast : B = []
            · subst hlast
              rw [List.append_nil] at hids hholds hlength
              exact (stepIs_even_last hids hholds hroom hn heven hlength hA).congr
                (iff_of_true trivial rfl)
            · exact (stepIs_even_lost hids hholds hroom hn heven hlength hA hB hlast).congr
                (iff_of_false id hlast)
          · rw [if_neg heven,and_iff_right hnot]
            exact stepIs_odd hids hholds hroom hn (by omega) hlength hA hB
        · have heven : st.canAccfCount % 2 = 0 := by omega
          rw [if_pos heven]
          exact (stepIs_twice_two hids hholds htwo (by omega) hA hB).congr
            (iff_of_true trivial (.inl hlength))
        · have hodd : ¬st.canAccfCount % 2 = 0 := by omega
          rw [if_neg hodd]
          exact (stepIs_twice_three hids hholds hthree (by omega) hA hB).congr
            (iff_of_false id fun h => h.1 hlength)

end States

end Pyrn.Can
