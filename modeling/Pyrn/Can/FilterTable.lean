import Pyrn.Can.FilterEntries

/-!
# The filter table

What a call of `SetFilter` does to a table that is in order: one result for every way in which
the call can go.
-/

namespace Pyrn.Can

open HalfWords AcceptanceFilter

/-- The expression for the entry in `can_filter`. -/
theorem FilterCall.wide_entry (call : FilterCall) :
    (let id := call.id.setWidth 32 &&& 0x0000FFFF
      let id := if call.bus = .can2 then id ||| (1 : Word) <<< 13 else id
      id &&& 0x0000F7FF) = wide call.entry := by
  obtain ⟨bus,id⟩ := call
  cases bus
  · revert id
    decide +kernel
  · revert id
    decide +kernel

/-- The entries are small, and no bit disables them. -/
structure IsEntry (e : Half) : Prop where
  msb : e.msb = false
  ne_pad : e ≠ 0xFFFF
  enabled : Enabled e
  enable : e &&& 0xEFFF = e

theorem FilterCall.isEntry (call : FilterCall) : IsEntry call.entry := by
  obtain ⟨bus,id⟩ := call
  have hall : ∀ id : BitVec 11,∀ bus,
      (FilterCall.mk bus id).entry.msb = false ∧ (FilterCall.mk bus id).entry ≠ 0xFFFF ∧
        Enabled (FilterCall.mk bus id).entry ∧
          (FilterCall.mk bus id).entry &&& 0xEFFF = (FilterCall.mk bus id).entry := by
    intro id bus
    cases bus
    · revert id
      decide +kernel
    · revert id
      decide +kernel
  obtain ⟨hmsb,hpad,henabled,henable⟩ := hall id bus
  exact ⟨hmsb,hpad,henabled,henable⟩

section Calls

variable {st : AcceptanceFilter} {call : FilterCall}

/-- A call of `SetFilter` with room in the memory, on the entry of its identifier. -/
theorem setFilter_eq (st : AcceptanceFilter) (call : FilterCall)
    (hroom : st.canAccfCount < 1022) :
    setFilter st call =
      if st.canAccfCount = 0 then
        st.counted (Function.update st.mask 0 ((0x0000FFFF : Word) ||| wide call.entry <<< 16))
      else if st.canAccfCount = 1 then
        st.counted (Function.update st.mask 0 (secondEntry (wide call.entry) (st.mask 0)))
      else st.enableOrInsert (wide call.entry) := by
  have hfree : ¬(st.canAccfCount + 1) / 2 ≥ 512 := by omega
  have hentry := call.wide_entry
  simp only at hentry
  rw [setFilter,canFilter]
  simp only [hentry]
  rw [if_neg hfree,if_true]

theorem setFilter_zero (hn : st.canAccfCount = 0) : setFilter st call =
    st.counted (Function.update st.mask 0 ((0x0000FFFF : Word) ||| wide call.entry <<< 16)) := by
  rw [setFilter_eq st call (by omega),if_pos hn]

theorem setFilter_one (hn : st.canAccfCount = 1) : setFilter st call =
    st.counted (Function.update st.mask 0 (secondEntry (wide call.entry) (st.mask 0))) := by
  rw [setFilter_eq st call (by omega),if_neg (by omega),if_pos hn]

/-- An entry that is found is enabled. -/
theorem setFilter_same {k : Nat} (hroom : st.canAccfCount < 1022) (hn : 2 ≤ st.canAccfCount)
    (hk : k < 2 * ((st.canAccfCount - 1) / 2 + 1))
    (hsmall : ∀ j < k,half st.mask j < call.entry) (hsame : half st.mask k = call.entry) :
    setFilter st call = st := by
  have hmask : call.entry &&& 0xEFFF = call.entry := call.isEntry.enable
  have hones : (0xFFFF : Half) = BitVec.allOnes 16 := rfl
  have hkeep (x : Half) : x &&& 0xFFFF = x := by rw [hones,BitVec.and_allOnes]
  rw [setFilter_eq st call hroom,if_neg (by omega),if_neg (by omega),enableOrInsert,
    search_same hk hsmall hsame,samePlace]
  rcases Nat.mod_two_eq_zero_or_one k with heven | hodd
  · rw [if_pos heven]
    have hword : st.mask (k / 2) &&& 0xEFFFFFFF = st.mask (k / 2) := by
      rw [half,if_pos heven] at hsame
      have hup : upper (0xEFFFFFFF : Word) = 0xEFFF := rfl
      have hlow : lower (0xEFFFFFFF : Word) = 0xFFFF := rfl
      apply ext_halves
      · rw [upper_and,hup,hsame,hmask]
      · rw [lower_and,hlow,hkeep]
    simp only [hword,Function.update_eq_self]
  · have hnot : ¬k % 2 = 0 := by omega
    rw [if_neg hnot]
    have hword : st.mask (k / 2) &&& 0xFFFFEFFF = st.mask (k / 2) := by
      rw [half,if_neg hnot] at hsame
      have hup : upper (0xFFFFEFFF : Word) = 0xFFFF := rfl
      have hlow : lower (0xFFFFEFFF : Word) = 0xEFFF := rfl
      apply ext_halves
      · rw [upper_and,hup,hkeep]
      · rw [lower_and,hlow,hsame,hmask]
    simp only [hword,Function.update_eq_self]

theorem setFilter_before {p : Nat} (hroom : st.canAccfCount < 1022) (hn : 2 ≤ st.canAccfCount)
    (hp : p < 2 * ((st.canAccfCount - 1) / 2 + 1))
    (hsmall : ∀ j < p,half st.mask j < call.entry) (hlarge : call.entry < half st.mask p) :
    setFilter st call =
      st.counted (pad st.canAccfCount (st.canAccfCount / 2)
        (insertAt st.canAccfCount (p / 2) p (wide call.entry) st.mask)) := by
  have hlast : max (p / 2) (st.canAccfCount / 2) = st.canAccfCount / 2 := by omega
  rw [setFilter_eq st call hroom,if_neg (by omega),if_neg (by omega),enableOrInsert,
    search_before hp hsmall hlarge]
  simp only
  rw [hlast]

theorem setFilter_behind (hroom : st.canAccfCount < 1022) (hn : 2 ≤ st.canAccfCount)
    (hsmall : ∀ j < 2 * ((st.canAccfCount - 1) / 2 + 1),half st.mask j < call.entry) :
    setFilter st call =
      st.counted (pad st.canAccfCount ((st.canAccfCount - 1) / 2 + 1)
        (insertBehind st.canAccfCount ((st.canAccfCount - 1) / 2 + 1) (wide call.entry)
          st.mask)) := by
  rw [setFilter_eq st call hroom,if_neg (by omega),if_neg (by omega),enableOrInsert,
    search_behind hsmall]

/-- The halves of the first word when it has one entry and gets another one. -/
theorem halves_secondEntry (e : Half) (w : Word) (henable : e &&& 0xEFFF = e) :
    upper (secondEntry (wide e) w) = min (upper w) e ∧
      lower (secondEntry (wide e) w) = if upper w = e then lower w else max (upper w) e := by
  have hones : (0xFFFF : Half) = BitVec.allOnes 16 := rfl
  have hzero : lower (0xFFFF0000 : Word) = 0#16 := rfl
  have hkeep : upper (0xFFFF0000 : Word) = 0xFFFF := rfl
  have hup : upper (0xEFFFFFFF : Word) = 0xEFFF := rfl
  have hlow : lower (0xEFFFFFFF : Word) = 0xFFFF := rfl
  rw [secondEntry,ushiftRight_eq]
  by_cases hsame : upper w = e
  · rw [if_pos (wide_inj.mpr hsame),if_pos hsame,upper_and,lower_and,hup,hlow,hsame,henable,hones,
      BitVec.and_allOnes,min_self]
    exact ⟨rfl,rfl⟩
  · rw [if_neg (mt wide_inj.mp hsame),if_neg hsame]
    rcases lt_or_gt_of_ne hsame with hlt | hgt
    · rw [if_neg (mt wide_lt_wide.mp hlt.not_gt),upper_or,lower_or,upper_and,lower_and,hkeep,hzero,
        hones,BitVec.and_allOnes,upper_wide,lower_wide,BitVec.or_zero,BitVec.and_zero,
        BitVec.zero_or,min_eq_left hlt.le,max_eq_right hlt.le]
      exact ⟨rfl,rfl⟩
    · rw [if_pos (wide_lt_wide.mpr hgt),upper_or,lower_or,upper_wide,lower_wide,upper_shiftLeft,
        lower_shiftLeft,lower_wide,BitVec.zero_or,BitVec.or_zero,min_eq_right (le_of_lt hgt),
        max_eq_left (le_of_lt hgt)]
      exact ⟨rfl,rfl⟩

end Calls

section Entries

/-- The first entries of a memory. -/
def entries (mask : Nat → Word) (n : Nat) : List Half := (List.range n).map (half mask)

variable {mask : Nat → Word} {n : Nat}

@[simp] theorem entries_length (mask : Nat → Word) (n : Nat) : (entries mask n).length = n := by
  rw [entries,List.length_map,List.length_range]

theorem entries_getElem? (mask : Nat → Word) {n k : Nat} (hk : k < n) :
    (entries mask n)[k]? = some (half mask k) := by
  rw [entries,List.getElem?_map,List.getElem?_range hk]
  rfl

theorem half_of_entries {L : List Half} (h : entries mask n = L) {k : Nat} (hk : k < n) :
    L[k]? = some (half mask k) := by
  rw [← h]
  exact entries_getElem? mask hk

theorem entries_eq {L : List Half} (hlength : L.length = n)
    (h : ∀ k < n,L[k]? = some (half mask k)) : entries mask n = L := by
  apply List.ext_getElem?
  intro k
  by_cases hk : k < n
  · rw [entries_getElem? mask hk,h k hk]
  · rw [List.getElem?_eq_none (by rw [entries_length]; omega),List.getElem?_eq_none (by omega)]

theorem entries_add_two (mask : Nat → Word) (i : Nat) :
    entries mask (2 * i + 2) = entries mask (2 * i) ++ [upper (mask i),lower (mask i)] := by
  rw [entries,List.range_succ,List.range_succ,List.append_assoc,List.map_append,entries]
  simp only [List.singleton_append,List.map_cons,List.map_nil]
  rw [half_even,half_odd]

theorem entries_congr {mask' : Nat → Word} {m : Nat} (h : ∀ i < m,mask' i = mask i) :
    entries mask' (2 * m) = entries mask (2 * m) := by
  apply List.map_congr_left
  intro k hk
  have hword : k / 2 < m := by
    have hlt := List.mem_range.mp hk
    omega
  rw [half,half,h _ hword]

/-- After an insertion, the entry at a position is the one of the list with the new entry, unless
it comes into a word that begins with a set bit. -/
theorem getElem?_insertAt {A B : List Half} (e : Half)
    (hreads : entries mask (2 * (n / 2) + 2) = A ++ B) (hp : A.length / 2 ≤ n / 2) {k : Nat}
    (hk : k < 2 * (n / 2) + 2)
    (hclean : A.length ≤ k → k % 2 = 0 → (half mask k).msb = false) :
    (A ++ e :: B)[k]? = some (half (insertAt n (A.length / 2) A.length (wide e) mask) k) := by
  rw [half_insertAt n e mask hp k,if_pos hk]
  by_cases hfront : k < A.length
  · rw [if_pos hfront,List.getElem?_append_left hfront]
    have hold := half_of_entries hreads hk
    rwa [List.getElem?_append_left hfront] at hold
  · have harrive : ¬(k % 2 = 0 ∧ (half mask k).msb = true) := by
      rintro ⟨heven,hmsb⟩
      rw [hclean (by omega) heven] at hmsb
      cases hmsb
    rw [if_neg hfront,arriving,if_neg harrive,List.getElem?_append_right (by omega)]
    by_cases hhere : k = A.length
    · rw [if_pos hhere,hhere,Nat.sub_self,List.getElem?_cons_zero]
    · obtain ⟨d,rfl⟩ : ∃ d,k = A.length + (d + 1) := ⟨k - A.length - 1,by omega⟩
      have hprev : A.length + (d + 1) - 1 = A.length + d := by omega
      have hindex : A.length + (d + 1) - A.length = d + 1 := by omega
      have hin : A.length + d < 2 * (n / 2) + 2 := by omega
      have hold := half_of_entries hreads hin
      rw [List.getElem?_append_right (by omega),Nat.add_sub_cancel_left] at hold
      rw [if_neg hhere,hindex,hprev,List.getElem?_cons_succ,hold]

/-- An insertion where no word that takes an entry over begins with a set bit. -/
theorem entries_insertAt {A B : List Half} (e : Half)
    (hreads : entries mask (2 * (n / 2) + 2) = A ++ B) (hp : A.length / 2 ≤ n / 2)
    (hclean : ∀ k,A.length ≤ k → k % 2 = 0 → k < 2 * (n / 2) + 2 → (half mask k).msb = false) :
    entries (insertAt n (A.length / 2) A.length (wide e) mask) (2 * (n / 2) + 2) =
      (A ++ e :: B).take (2 * (n / 2) + 2) := by
  have hlength : (A ++ B).length = 2 * (n / 2) + 2 := by rw [← hreads,entries_length]
  rw [List.length_append] at hlength
  apply entries_eq
  · rw [List.length_take,List.length_append,List.length_cons]
    omega
  · intro k hk
    rw [List.getElem?_take_of_lt hk]
    exact getElem?_insertAt e hreads hp hk fun hle heven => hclean k hle heven hk

/-- An insertion where the last word begins with a set bit: the entry that comes into it is
lost. -/
theorem entries_insertAt_full {A B : List Half} (e : Half)
    (hreads : entries mask (2 * (n / 2) + 2) = A ++ B) (hp : A.length ≤ 2 * (n / 2))
    (hfull : (upper (mask (n / 2))).msb = true)
    (hclean : ∀ k,A.length ≤ k → k % 2 = 0 → k < 2 * (n / 2) → (half mask k).msb = false) :
    entries (insertAt n (A.length / 2) A.length (wide e) mask) (2 * (n / 2) + 2) =
      (A ++ e :: B).take (2 * (n / 2)) ++ [0xFFFF,upper (mask (n / 2))] := by
  have hlength : (A ++ B).length = 2 * (n / 2) + 2 := by rw [← hreads,entries_length]
  rw [List.length_append] at hlength
  have hword : A.length / 2 ≤ n / 2 := by omega
  rw [entries_add_two]
  congr 1
  · apply entries_eq
    · rw [List.length_take,List.length_append,List.length_cons]
      omega
    · intro k hk
      rw [List.getElem?_take_of_lt hk]
      exact getElem?_insertAt e hreads hword (by omega) fun hle heven => hclean k hle heven hk
  · rw [← half_even,← half_odd,half_insertAt n e mask hword,half_insertAt n e mask hword]
    have hodd : ¬((2 * (n / 2) + 1) % 2 = 0 ∧ (half mask (2 * (n / 2) + 1)).msb = true) := by
      omega
    have heven : 2 * (n / 2) % 2 = 0 ∧ (half mask (2 * (n / 2))).msb = true := by
      rw [half_even]
      exact ⟨by omega,hfull⟩
    rw [if_neg (by omega),if_pos (by omega),arriving,if_pos heven,if_neg (by omega),
      if_pos (by omega),arriving,if_neg hodd,if_neg (by omega),Nat.add_sub_cancel,half_even]

/-- The words behind the last one are left alone. -/
theorem insertAt_of_lt {p : Nat} (e : Half) (hp : p / 2 ≤ n / 2) {i : Nat} (hi : n / 2 < i) :
    insertAt n (p / 2) p (wide e) mask i = mask i := by
  apply ext_halves
  · rw [← half_even,half_insertAt n e mask hp,if_neg (by omega),if_neg (by omega),half_even]
  · rw [← half_odd,half_insertAt n e mask hp,if_neg (by omega),if_neg (by omega),half_odd]

/-- The padding behind a new entry. -/
theorem entries_pad (mask : Nat → Word) {m : Nat} (hn : n % 2 = 0) :
    entries (pad n m mask) (2 * m + 2) = entries mask (2 * m) ++ [upper (mask m),0xFFFF] := by
  have hkeep : upper (0xFFFF0000 : Word) = BitVec.allOnes 16 := rfl
  have hzero : lower (0xFFFF0000 : Word) = 0#16 := rfl
  have hup : upper (0x0000FFFF : Word) = 0#16 := rfl
  have hlow : lower (0x0000FFFF : Word) = 0xFFFF := rfl
  rw [entries_add_two,pad,if_pos hn,Function.update_self,upper_or,lower_or,upper_and,lower_and,
    hkeep,hzero,hup,hlow,BitVec.and_allOnes,BitVec.and_zero,BitVec.or_zero,BitVec.zero_or]
  congr 1
  exact entries_congr fun i hi => Function.update_of_ne (Nat.ne_of_lt hi) _ _

end Entries

end Pyrn.Can
