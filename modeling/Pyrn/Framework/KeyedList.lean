import Mathlib.Data.List.Nodup

/-!
# Lists with keys

A list of entries is used as a table: an item goes to the entry with its key, or a new entry for
it is appended, if there is room for one.
-/

namespace Keyed

variable {α κ ι : Type*} [DecidableEq κ]

/-- Change the entries with a key. -/
def touch (key : α → κ) (k : κ) (f : α → α) (xs : List α) : List α :=
  xs.map fun a => if key a = k then f a else a

/-- With distinct keys, a change at the first entry with a key is a change of all of them. -/
theorem modify_eq_touch {key : α → κ} {k : κ} {xs : List α} {i : Nat} (f : α → α)
    (hnodup : (xs.map key).Nodup) (hi : xs.findIdx? (fun a => key a = k) = some i) :
    xs.modify i f = touch key k f xs := by
  obtain ⟨hlt,hkey,-⟩ := List.findIdx?_eq_some_iff_getElem.mp hi
  have hkey' : key xs[i] = k := of_decide_eq_true hkey
  apply List.ext_getElem?
  intro j
  rw [List.getElem?_modify,touch,List.getElem?_map]
  cases hj : xs[j]? with
  | none => rfl
  | some a =>
    obtain ⟨hjlt,rfl⟩ := List.getElem?_eq_some_iff.mp hj
    by_cases hij : i = j
    · subst hij
      simp only [Option.map_eq_map,Option.map_some,if_true]
      rw [if_pos hkey']
    · have hother : key xs[j] ≠ k := by
        intro hsame
        apply hij
        have hlength : i < (xs.map key).length := by rwa [List.length_map]
        apply (List.getElem?_inj hlength hnodup).mp
        rw [List.getElem?_map,List.getElem?_map,List.getElem?_eq_getElem hlt,hj]
        simp only [Option.map_some]
        rw [hkey',hsame]
      simp only [Option.map_eq_map,Option.map_some]
      rw [if_neg hij,if_neg hother]

theorem findIdx?_eq_none_iff_key {key : α → κ} {k : κ} {xs : List α} :
    xs.findIdx? (fun a => key a = k) = none ↔ k ∉ xs.map key := by
  rw [List.findIdx?_eq_none_iff,List.mem_map]
  constructor
  · rintro hall ⟨a,ha,hkey⟩
    exact of_decide_eq_false (hall a ha) hkey
  · intro hnone a ha
    exact decide_eq_false fun hkey => hnone ⟨a,ha,hkey⟩

/-- The key is the one of the first entry exactly when the search ends at once. -/
theorem findIdx?_eq_zero_iff {key : α → κ} {k : κ} {xs : List α} :
    xs.findIdx? (fun a => key a = k) = some 0 ↔ (xs.map key).head? = some k := by
  cases xs with
  | nil => simp
  | cons a xs =>
    rw [List.findIdx?_cons,List.map_cons,List.head?_cons]
    by_cases hkey : key a = k
    · simp [hkey]
    · simp [hkey]

theorem modify_append_last (xs : List α) (a : α) (f : α → α) :
    (xs ++ [a]).modify xs.length f = xs ++ [f a] := by
  induction xs with
  | nil => rfl
  | cons x xs ih => exact congrArg (x :: ·) ih

/-- The items for which there is no key. -/
def unknown (keyOf : ι → κ) (keys : List κ) (items : List ι) : List ι :=
  items.filter fun x => keyOf x ∉ keys

/-- How items are placed in a table: the key of an item, what it does to the entry with this
key, and the entry that is made for it when the table has a given length. -/
structure Scheme (α κ ι : Type*) where
  key : α → κ
  keyOf : ι → κ
  add : ι → α → α
  new : Nat → ι → Option α
  key_add : ∀ x a, key (add x a) = key a
  key_new : ∀ n x a, new n x = some a → key a = keyOf x

namespace Scheme

variable (scheme : Scheme α κ ι)

def keys (xs : List α) : List κ := xs.map scheme.key

def place (xs : List α) (x : ι) : Option (List α) :=
  if scheme.keyOf x ∈ scheme.keys xs then
    some (touch scheme.key (scheme.keyOf x) (scheme.add x) xs)
  else (scheme.new xs.length x).map fun a => xs ++ [a]

/-- There is room for the entries of the items that are not known. -/
def Room (xs : List α) (items : List ι) : Prop :=
  ∀ k x, (unknown scheme.keyOf (scheme.keys xs) items)[k]? = some x →
    (scheme.new (xs.length + k) x).isSome = true

variable {scheme} {xs ys : List α} {x : ι}

theorem keys_touch : scheme.keys (touch scheme.key (scheme.keyOf x) (scheme.add x) xs) =
    scheme.keys xs := by
  rw [keys,touch,List.map_map]
  apply List.map_congr_left
  intro a _
  rw [Function.comp_apply]
  split_ifs
  · exact scheme.key_add x a
  · rfl

/-- What one placement does to the keys and to the entries that are there. -/
theorem place_spec (hplace : scheme.place xs x = some ys) :
    scheme.keys ys =
      scheme.keys xs ++ (unknown scheme.keyOf (scheme.keys xs) [x]).map scheme.keyOf ∧
      ∀ (i : Nat) a, xs[i]? = some a →
        ys[i]? = some (if scheme.key a = scheme.keyOf x then scheme.add x a else a) := by
  rw [place] at hplace
  split_ifs at hplace with hknown
  · cases hplace
    rw [keys_touch,unknown,List.filter_cons_of_neg (by simpa using hknown)]
    refine ⟨(List.append_nil _).symm,fun i a ha => ?_⟩
    rw [touch,List.getElem?_map,ha]
    rfl
  · obtain ⟨a,hnew,rfl⟩ := Option.map_eq_some_iff.mp hplace
    rw [unknown,List.filter_cons_of_pos (by simpa using hknown)]
    constructor
    · rw [keys,List.map_append,List.map_cons,scheme.key_new _ _ _ hnew]
      rfl
    · intro i b hb
      obtain ⟨hlt,rfl⟩ := List.getElem?_eq_some_iff.mp hb
      have hother : scheme.key xs[i] ≠ scheme.keyOf x := by
        intro hsame
        exact hknown (List.mem_map.mpr ⟨_,List.getElem_mem hlt,hsame⟩)
      rw [List.getElem?_append_left hlt,if_neg hother]
      exact List.getElem?_eq_getElem hlt

theorem keys_of_place (hplace : scheme.place xs x = some ys) :
    scheme.keys ys =
      scheme.keys xs ++ (unknown scheme.keyOf (scheme.keys xs) [x]).map scheme.keyOf :=
  (place_spec hplace).1

theorem nodup_of_place (hplace : scheme.place xs x = some ys) (hxs : (scheme.keys xs).Nodup) :
    (scheme.keys ys).Nodup := by
  rw [keys_of_place hplace,unknown,List.filter_cons]
  split_ifs with hnew
  · have hfresh : scheme.keyOf x ∉ scheme.keys xs := by simpa using hnew
    exact List.nodup_append_comm.mp (List.nodup_cons.mpr ⟨hfresh,hxs⟩)
  · rw [List.filter_nil,List.map_nil,List.append_nil]
    exact hxs

/-- Placing one item does not change which of the others are known. -/
theorem unknown_of_place {items : List ι} (hplace : scheme.place xs x = some ys)
    (hx : scheme.keyOf x ∉ items.map scheme.keyOf) :
    unknown scheme.keyOf (scheme.keys ys) items = unknown scheme.keyOf (scheme.keys xs) items := by
  apply List.filter_congr
  intro y hy
  have hother : scheme.keyOf y ≠ scheme.keyOf x := by
    intro hsame
    exact hx (List.mem_map.mpr ⟨y,hy,hsame⟩)
  rw [keys_of_place hplace,unknown,List.filter_cons]
  split_ifs <;> simp [hother]

variable (scheme) in
def placeAll (xs : List α) (items : List ι) : Option (List α) := items.foldlM scheme.place xs

theorem placeAll_cons {items : List ι} : scheme.placeAll xs (x :: items) =
    (scheme.place xs x).bind fun ys => scheme.placeAll ys items := List.foldlM_cons

theorem nodup_of_placeAll {items : List ι} (hplaced : scheme.placeAll xs items = some ys)
    (hxs : (scheme.keys xs).Nodup) : (scheme.keys ys).Nodup := by
  induction items generalizing xs with
  | nil =>
    cases hplaced
    exact hxs
  | cons x items ih =>
    rw [placeAll_cons,Option.bind_eq_some_iff] at hplaced
    obtain ⟨zs,hfirst,hrest⟩ := hplaced
    exact ih hrest (nodup_of_place hfirst hxs)

/-- Items with distinct keys add the unknown ones to the keys, in their order, and each of the
others changes its own entry. -/
theorem placeAll_spec {items : List ι} (hitems : (items.map scheme.keyOf).Nodup)
    (hplaced : scheme.placeAll xs items = some ys) :
    scheme.keys ys =
        scheme.keys xs ++ (unknown scheme.keyOf (scheme.keys xs) items).map scheme.keyOf ∧
      (∀ (i : Nat) a, xs[i]? = some a → (∀ x ∈ items, scheme.key a ≠ scheme.keyOf x) →
        ys[i]? = some a) ∧
      ∀ (i : Nat) a, xs[i]? = some a → ∀ x ∈ items, scheme.key a = scheme.keyOf x →
        ys[i]? = some (scheme.add x a) := by
  induction items generalizing xs with
  | nil =>
    cases hplaced
    refine ⟨(List.append_nil _).symm,fun i a ha _ => ha,?_⟩
    intro i a _ x hx
    cases hx
  | cons x items ih =>
    rw [List.map_cons,List.nodup_cons] at hitems
    rw [placeAll_cons,Option.bind_eq_some_iff] at hplaced
    obtain ⟨zs,hfirst,hrest⟩ := hplaced
    obtain ⟨hkeys,hsame,hadd⟩ := ih hitems.2 hrest
    obtain ⟨-,hentries⟩ := place_spec hfirst
    refine ⟨?_,?_,?_⟩
    · have hsplit : unknown scheme.keyOf (scheme.keys xs) (x :: items) =
          unknown scheme.keyOf (scheme.keys xs) [x] ++
            unknown scheme.keyOf (scheme.keys xs) items := by
        rw [unknown,unknown,unknown,← List.filter_append,List.singleton_append]
      rw [hkeys,unknown_of_place hfirst hitems.1,keys_of_place hfirst,hsplit,List.map_append,
        List.append_assoc]
    · intro i a ha hothers
      have hzs := hentries i a ha
      rw [if_neg (hothers x List.mem_cons_self)] at hzs
      exact hsame i a hzs fun y hy => hothers y (List.mem_cons_of_mem x hy)
    · intro i a ha y hy hkey
      have hzs := hentries i a ha
      rcases List.mem_cons.mp hy with rfl | hy
      · -- the item of the entry comes first, and no later one has its key
        rw [if_pos hkey] at hzs
        apply hsame i _ hzs
        intro z hz hsamekey
        rw [scheme.key_add,hkey] at hsamekey
        exact hitems.1 (List.mem_map.mpr ⟨z,hz,hsamekey.symm⟩)
      · have hother : scheme.key a ≠ scheme.keyOf x := by
          intro hsamekey
          apply hitems.1
          rw [← hsamekey,hkey]
          exact List.mem_map_of_mem hy
        rw [if_neg hother] at hzs
        exact hadd i a hzs y hy hkey

theorem unknown_cons_of_mem {keys : List κ} {items : List ι} (hx : scheme.keyOf x ∈ keys) :
    unknown scheme.keyOf keys (x :: items) = unknown scheme.keyOf keys items :=
  List.filter_cons_of_neg (by simpa using hx)

theorem unknown_cons_of_notMem {keys : List κ} {items : List ι} (hx : scheme.keyOf x ∉ keys) :
    unknown scheme.keyOf keys (x :: items) = x :: unknown scheme.keyOf keys items :=
  List.filter_cons_of_pos (by simpa using hx)

/-- Items with distinct keys can all be placed exactly when there is room for them. -/
theorem exists_placeAll_iff {items : List ι} (hitems : (items.map scheme.keyOf).Nodup) :
    (∃ ys, scheme.placeAll xs items = some ys) ↔ scheme.Room xs items := by
  induction items generalizing xs with
  | nil =>
    refine iff_of_true ⟨xs,rfl⟩ fun k x hx => ?_
    cases hx
  | cons x items ih =>
    rw [List.map_cons,List.nodup_cons] at hitems
    by_cases hknown : scheme.keyOf x ∈ scheme.keys xs
    · have hfirst : scheme.place xs x =
          some (touch scheme.key (scheme.keyOf x) (scheme.add x) xs) := if_pos hknown
      have hlength : (touch scheme.key (scheme.keyOf x) (scheme.add x) xs).length = xs.length :=
        List.length_map _
      rw [placeAll_cons,hfirst,Option.bind_some,ih hitems.2,Room,Room,
        unknown_of_place hfirst hitems.1,unknown_cons_of_mem hknown,hlength]
    · have hfirst : scheme.place xs x = (scheme.new xs.length x).map fun a => xs ++ [a] :=
        if_neg hknown
      rw [Room,unknown_cons_of_notMem hknown]
      cases hnew : scheme.new xs.length x with
      | none =>
        rw [placeAll_cons,hfirst,hnew]
        refine iff_of_false (fun ⟨ys,hys⟩ => by cases hys) fun hroom => ?_
        have hzero := hroom 0 x rfl
        rw [Nat.add_zero,hnew] at hzero
        cases hzero
      | some a =>
        have hfirst' : scheme.place xs x = some (xs ++ [a]) := by rw [hfirst,hnew]; rfl
        rw [placeAll_cons,hfirst',Option.bind_some,ih hitems.2,Room,
          unknown_of_place hfirst' hitems.1,List.length_append,List.length_singleton]
        constructor
        · intro hroom k y hy
          cases k with
          | zero =>
            cases hy
            rw [Nat.add_zero,hnew]
            rfl
          | succ k =>
            rw [Nat.add_comm k,← Nat.add_assoc]
            exact hroom k y hy
        · intro hroom k y hy
          rw [Nat.add_assoc,Nat.add_comm 1]
          exact hroom (k + 1) y hy

end Scheme

end Keyed
