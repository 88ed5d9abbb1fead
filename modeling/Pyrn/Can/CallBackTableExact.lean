import Pyrn.Can.CallBackTable
import Pyrn.Framework.Run

/-!
# When the callback table is the list of its entries

`AddCallBackForId` always appends. `DelCallBackForId` removes an entry exactly when the bytes
it copies happen to restore the entries behind; along a run the table is the abstract list as
long as every delete does so, and no longer.
-/

namespace Pyrn.Can

open Buffer LittleEndian

section Images

private theorem toBytes_uint32_ofBytes {bytes : List UInt8} (hlength : bytes.length = 4) :
    toBytes 4 (UInt32.ofNat (ofBytes bytes)).toNat = bytes := by
  have hlt := ofBytes_lt bytes
  rw [hlength] at hlt
  have hid : (UInt32.ofNat (ofBytes bytes)).toNat = ofBytes bytes :=
    UInt32.toNat_ofNat_of_lt hlt
  rw [hid]
  conv => lhs; rw [← hlength]
  exact toBytes_ofBytes bytes

private theorem uint32_ofBytes_toBytes (x : UInt32) :
    UInt32.ofNat (ofBytes (toBytes 4 x.toNat)) = x := by
  rw [ofBytes_toBytes_of_lt x.toNat_lt]
  exact UInt32.ofNat_toNat

theorem ofImage_image (entry : IdCbEntry) : IdCbEntry.ofImage entry.image = entry := by
  have hdrop : entry.image.drop 4 = toBytes 4 entry.id.toNat ++ toBytes 4 entry.cb.toNat := rfl
  have hid : (entry.image.drop 4).take 4 = toBytes 4 entry.id.toNat := by
    rw [hdrop,List.take_left' (toBytes_length 4 _)]
  have hcb : (entry.image.drop 8).take 4 = toBytes 4 entry.cb.toNat := by
    have hcb : entry.image.drop 8 = (entry.image.drop 4).drop 4 := rfl
    rw [hcb,hdrop,List.drop_left' (toBytes_length 4 _),
      List.take_of_length_le (Nat.le_of_eq (toBytes_length 4 _))]
  rw [IdCbEntry.ofImage,hid,hcb,uint32_ofBytes_toBytes,uint32_ofBytes_toBytes]
  rfl

/-- The padding of an image is lost, the rest is not. -/
theorem getElem?_image_ofImage {bytes : List UInt8} (hlength : bytes.length = sizeofIdCbEntry)
    (b : Nat) : (IdCbEntry.ofImage bytes).image[b]? =
      if b = 0 ∨ 4 ≤ b then bytes[b]? else some 0 := by
  rw [sizeofIdCbEntry] at hlength
  have himage : (IdCbEntry.ofImage bytes).image =
      bytes.headD 0 :: 0 :: 0 :: 0 :: bytes.drop 4 := by
    rw [IdCbEntry.image,IdCbEntry.ofImage]
    simp only
    rw [toBytes_uint32_ofBytes (by simp; omega),toBytes_uint32_ofBytes (by simp; omega)]
    have hdrop : bytes.drop 8 = (bytes.drop 4).drop 4 := by rw [List.drop_drop]
    rw [hdrop,List.take_of_length_le (i := 4) (l := (bytes.drop 4).drop 4) (by simp; omega),
      List.take_append_drop]
  rw [himage]
  obtain ⟨first,rest,rfl⟩ := List.exists_cons_of_length_pos (by omega : 0 < bytes.length)
  match b with
  | 0 => rfl
  | 1 | 2 | 3 => rfl
  | b + 4 =>
    rw [if_pos (Or.inr (by omega))]
    simp [Nat.add_comm]

theorem ofImage_eq_iff {x y : List UInt8} (hx : x.length = sizeofIdCbEntry)
    (hy : y.length = sizeofIdCbEntry) :
    IdCbEntry.ofImage x = IdCbEntry.ofImage y ↔ ∀ b, b = 0 ∨ 4 ≤ b → x[b]? = y[b]? := by
  constructor
  · intro heq b hb
    have hbyte := congrArg (fun entry => entry.image[b]?) heq
    simpa only [getElem?_image_ofImage hx,getElem?_image_ofImage hy,if_pos hb] using hbyte
  · intro hbytes
    rw [← ofImage_image (IdCbEntry.ofImage x),← ofImage_image (IdCbEntry.ofImage y)]
    congr 1
    apply List.ext_getElem?
    intro b
    rw [getElem?_image_ofImage hx,getElem?_image_ofImage hy]
    by_cases hb : b = 0 ∨ 4 ≤ b
    · rw [if_pos hb,if_pos hb,hbytes b hb]
    · rw [if_neg hb,if_neg hb]

/-- An image overwritten in front reads as the new entry iff the old one agrees behind. -/
theorem ofImage_overwrite_iff {x y : List UInt8} (hx : x.length = sizeofIdCbEntry)
    (hy : y.length = sizeofIdCbEntry) {k : Nat} (hk : k ≤ sizeofIdCbEntry) :
    IdCbEntry.ofImage (y.take k ++ x.drop k) = IdCbEntry.ofImage y ↔
      (IdCbEntry.ofImage x).image.drop k = (IdCbEntry.ofImage y).image.drop k := by
  have htake : (y.take k).length = k := by simp; omega
  have hmix : ∀ b, (y.take k ++ x.drop k)[b]? = if b < k then y[b]? else x[b]? := by
    intro b
    by_cases hb : b < k
    · rw [if_pos hb,List.getElem?_append_left (by omega),List.getElem?_take_of_lt hb]
    · rw [if_neg hb,List.getElem?_append_right (by omega),List.getElem?_drop,htake]
      congr 1
      omega
  rw [ofImage_eq_iff (by simp; omega) hy]
  constructor
  · intro hbytes
    apply List.ext_getElem?
    intro b
    rw [List.getElem?_drop,List.getElem?_drop,getElem?_image_ofImage hx,
      getElem?_image_ofImage hy]
    by_cases hb : k + b = 0 ∨ 4 ≤ k + b
    · have hbyte := hbytes (k + b) hb
      rw [hmix,if_neg (by omega)] at hbyte
      rw [if_pos hb,if_pos hb,hbyte]
    · rw [if_neg hb,if_neg hb]
  · intro hdrop b hb
    rw [hmix]
    by_cases hlt : b < k
    · rw [if_pos hlt]
    · have hbyte := congrArg (fun bytes => bytes[b - k]?) hdrop
      simp only [List.getElem?_drop] at hbyte
      rw [Nat.add_sub_cancel' (by omega),getElem?_image_ofImage hx,getElem?_image_ofImage hy,
        if_pos hb,if_pos hb] at hbyte
      rw [if_neg hlt,hbyte]

end Images

namespace CallBacks

variable {st : CallBacks}

theorem imageAt_length (hst : st.WellFormed) {i : Nat} (hi : i < canSimultaneousCbs) :
    (st.imageAt i).length = sizeofIdCbEntry := by
  have htable := hst.table_length
  rw [imageAt,List.length_take,List.length_drop,htable]
  simp only [sizeofIdCbEntry,canSimultaneousCbs] at hi ⊢
  omega

/-- Bytes written inside one entry leave the others alone. -/
theorem imageAt_splice_of_ne {table xs : List UInt8} {n m i j off : Nat} (hij : j ≠ i)
    (hoff : sizeofIdCbEntry * i ≤ off) (hend : off + xs.length ≤ sizeofIdCbEntry * (i + 1))
    (htable : sizeofIdCbEntry * (i + 1) ≤ table.length) :
    imageAt ⟨n,splice table off xs⟩ j = imageAt ⟨m,table⟩ j := by
  simp only [sizeofIdCbEntry] at *
  apply List.ext_getElem?
  intro b
  simp only [imageAt,sizeofIdCbEntry]
  by_cases hb : b < 12
  · rw [List.getElem?_take_of_lt hb,List.getElem?_take_of_lt hb,List.getElem?_drop,
      List.getElem?_drop,getElem?_splice _ _ _ _ (by omega)]
    by_cases hbefore : 12 * j + b < off
    · rw [if_pos hbefore]
    · rw [if_neg hbefore,if_neg (by omega)]
  · rw [List.getElem?_take_eq_none (by omega),List.getElem?_take_eq_none (by omega)]

theorem imageAt_splice_self {table xs : List UInt8} {n m i d : Nat}
    (hd : d + xs.length ≤ sizeofIdCbEntry)
    (htable : sizeofIdCbEntry * (i + 1) ≤ table.length) :
    imageAt ⟨n,splice table (sizeofIdCbEntry * i + d) xs⟩ i =
      splice (imageAt ⟨m,table⟩ i) d xs := by
  simp only [sizeofIdCbEntry] at *
  have hlength : (imageAt ⟨m,table⟩ i).length = 12 := by
    simp only [imageAt,sizeofIdCbEntry,List.length_take,List.length_drop]
    omega
  have hold : ∀ b, b < 12 → (imageAt ⟨m,table⟩ i)[b]? = table[12 * i + b]? := by
    intro b hb
    simp only [imageAt,sizeofIdCbEntry]
    rw [List.getElem?_take_of_lt hb,List.getElem?_drop]
  apply List.ext_getElem?
  intro b
  rw [getElem?_splice _ _ _ _ (by omega)]
  by_cases hb : b < 12
  · simp only [imageAt,sizeofIdCbEntry] at hold ⊢
    rw [List.getElem?_take_of_lt hb,List.getElem?_drop,getElem?_splice _ _ _ _ (by omega),
      hold b hb,Nat.add_sub_add_left]
    simp only [Nat.add_lt_add_iff_left,Nat.add_assoc]
  · have hbeyond : sizeofIdCbEntry ≤ b := by
      rw [sizeofIdCbEntry]
      omega
    rw [if_neg (by omega),if_neg (by omega),imageAt,imageAt,
      List.getElem?_take_eq_none hbeyond,List.getElem?_take_eq_none hbeyond]

theorem imageAt_removeAt_of_ne (hst : st.WellFormed) {i j : Nat} (hi : i < st.nCurrentCbs)
    (hij : j ≠ i) : (st.removeAt i).imageAt j = st.imageAt j := by
  have htable := hst.table_length
  have hcount := hst.count_le
  apply imageAt_splice_of_ne hij (Nat.le_refl _)
  · simp only [List.length_take,List.length_drop,sizeofIdCbEntry,canSimultaneousCbs] at *
    omega
  · simp only [sizeofIdCbEntry,canSimultaneousCbs] at *
    omega

/-- The removed entry is overwritten in front only. -/
theorem imageAt_removeAt_self (hst : st.WellFormed) {i : Nat} (hi : i < st.nCurrentCbs) :
    (st.removeAt i).imageAt i = (st.imageAt (i + 1)).take (st.nCurrentCbs - (i + 1)) ++
      (st.imageAt i).drop (st.nCurrentCbs - (i + 1)) := by
  have htable := hst.table_length
  have hcount := hst.count_le
  simp only [sizeofIdCbEntry,canSimultaneousCbs] at htable hcount
  let copied := (st.idCbTable.drop (sizeofIdCbEntry * (i + 1))).take (st.nCurrentCbs - (i + 1))
  have hlength : copied.length = st.nCurrentCbs - (i + 1) := by
    simp only [copied,List.length_take,List.length_drop,sizeofIdCbEntry]
    omega
  have hself : (st.removeAt i).imageAt i = splice (st.imageAt i) 0 copied :=
    imageAt_splice_self (d := 0) (by rw [hlength,sizeofIdCbEntry]; omega)
      (by rw [sizeofIdCbEntry]; omega)
  have hcopied : copied = (st.imageAt (i + 1)).take (st.nCurrentCbs - (i + 1)) := by
    rw [imageAt,List.take_take,Nat.min_eq_left (by rw [sizeofIdCbEntry]; omega)]
  rw [hself,splice,List.take_zero,List.nil_append,Nat.zero_add,hlength,hcopied]

theorem removeAt_wellFormed (hst : st.WellFormed) {i : Nat} (hi : i < st.nCurrentCbs) :
    (st.removeAt i).WellFormed where
  table_length := by
    have htable := hst.table_length
    have hcount := hst.count_le
    rw [removeAt,memcpy]
    rw [splice_length,htable]
    simp only [List.length_take,List.length_drop,htable,sizeofIdCbEntry,canSimultaneousCbs] at *
    omega
  count_le := (Nat.sub_le _ 1).trans hst.count_le

private theorem map_range_add {α : Type*} (f : Nat → α) (i k : Nat) :
    (List.range (i + k)).map f =
      (List.range i).map f ++ (List.range k).map fun m => f (i + m) := by
  rw [List.range_add,List.map_append,List.map_map]
  rfl

/-- Taking an entry out shifts the others iff the copy restores them. -/
theorem live_removeAt_iff (hst : st.WellFormed) {i k : Nat} (hi : st.nCurrentCbs = i + 1 + k) :
    (st.removeAt i).live = (List.range i).map st.entryAt ++
        (List.range k).map (fun m => st.entryAt (i + 1 + m)) ↔
      ∀ m < k, st.entryAt (i + 1) = st.entryAt (i + 1 + m) ∧
        (st.entryAt i).image.drop k = (st.entryAt (i + 1 + m)).image.drop k := by
  have hcount := hst.count_le
  rw [hi,canSimultaneousCbs] at hcount
  have hother : ∀ j, j ≠ i → (st.removeAt i).entryAt j = st.entryAt j := by
    intro j hj
    rw [entryAt,imageAt_removeAt_of_ne hst (by omega) hj,entryAt]
  have hfirst : 0 < k → ((st.removeAt i).entryAt i = st.entryAt (i + 1) ↔
      (st.entryAt i).image.drop k = (st.entryAt (i + 1)).image.drop k) := by
    intro hk
    rw [entryAt,imageAt_removeAt_self hst (by omega),hi,Nat.add_sub_cancel_left]
    apply ofImage_overwrite_iff
    · exact imageAt_length hst (by rw [canSimultaneousCbs]; omega)
    · exact imageAt_length hst (by rw [canSimultaneousCbs]; omega)
    · rw [sizeofIdCbEntry]
      omega
  have hfront : (List.range i).map (st.removeAt i).entryAt = (List.range i).map st.entryAt := by
    apply List.map_congr_left
    intro j hj
    exact hother j (Nat.ne_of_lt (List.mem_range.mp hj))
  have hlive : (st.removeAt i).live = (List.range i).map st.entryAt ++
      (List.range k).map fun m => (st.removeAt i).entryAt (i + m) := by
    have hcount' : (st.removeAt i).nCurrentCbs = i + k := by
      change st.nCurrentCbs - 1 = i + k
      omega
    rw [live,hcount',map_range_add,hfront]
  rw [hlive,List.append_cancel_left_eq,List.map_inj_left]
  constructor
  · intro hshift m hm
    have hhead := (hfirst (by omega)).mp (hshift 0 (List.mem_range.mpr (by omega)))
    have hsame : ∀ m, m < k → st.entryAt (i + 1) = st.entryAt (i + 1 + m) := by
      intro m
      induction m with
      | zero => exact fun _ => rfl
      | succ m ih =>
        intro hm
        have hstep := hshift (m + 1) (List.mem_range.mpr hm)
        rw [hother _ (by omega)] at hstep
        rw [ih (by omega),← hstep]
        congr 1
        omega
    rw [← hsame m hm]
    exact ⟨rfl,hhead⟩
  · intro hsame m hm
    have hm := List.mem_range.mp hm
    cases m with
    | zero => exact (hfirst (by omega)).mpr (hsame 0 (by omega)).2
    | succ m =>
      rw [hother _ (by omega),← (hsame (m + 1) hm).1,(hsame m (by omega)).1]
      congr 1
      omega

/-- The loop finds the first entry that matches, if there is one. -/
theorem delFrom_cases (st : CallBacks) (bus : UInt8) (id : UInt32) (left i : Nat) :
    ((∀ j, i ≤ j → j < i + left → ¬((st.entryAt j).bus = bus ∧ (st.entryAt j).id = id)) ∧
      st.delFrom bus id left i = st) ∨
    ∃ j, i ≤ j ∧ j < i + left ∧ ((st.entryAt j).bus = bus ∧ (st.entryAt j).id = id) ∧
      (∀ m, i ≤ m → m < j → ¬((st.entryAt m).bus = bus ∧ (st.entryAt m).id = id)) ∧
      st.delFrom bus id left i = st.removeAt j := by
  induction left generalizing i with
  | zero =>
    left
    exact ⟨fun j hle hlt => by omega,rfl⟩
  | succ left ih =>
    by_cases hmatch : (st.entryAt i).bus = bus ∧ (st.entryAt i).id = id
    · right
      exact ⟨i,Nat.le_refl i,by omega,hmatch,fun m hle hlt => by omega,by
        rw [delFrom,if_pos hmatch]⟩
    · rw [delFrom,if_neg hmatch]
      rcases ih (i + 1) with ⟨hnone,hdel⟩ | ⟨j,hle,hlt,hj,hbefore,hdel⟩
      · left
        refine ⟨fun j hle hlt => ?_,hdel⟩
        rcases Nat.eq_or_lt_of_le hle with rfl | hlt'
        · exact hmatch
        · exact hnone j hlt' (by omega)
      · right
        refine ⟨j,by omega,by omega,hj,fun m hle hlt => ?_,hdel⟩
        rcases Nat.eq_or_lt_of_le hle with rfl | hlt'
        · exact hmatch
        · exact hbefore m hlt' hlt

end CallBacks

theorem compacts_of_none {bus : UInt8} {id : UInt32} {entries : List IdCbEntry}
    (hnone : ∀ entry ∈ entries, ¬(entry.bus = bus ∧ entry.id = id)) :
    Compacts bus id entries := by
  induction entries with
  | nil => exact trivial
  | cons entry rest ih =>
    rw [Compacts,if_neg (hnone entry List.mem_cons_self)]
    exact ih fun next hnext => hnone next (List.mem_cons_of_mem entry hnext)

theorem compacts_append_iff {bus : UInt8} {id : UInt32} {front rest : List IdCbEntry}
    {entry : IdCbEntry} (hnone : ∀ entry ∈ front, ¬(entry.bus = bus ∧ entry.id = id))
    (hmatch : entry.bus = bus ∧ entry.id = id) :
    Compacts bus id (front ++ entry :: rest) ↔ ∀ next ∈ rest, rest.head? = some next ∧
      entry.image.drop rest.length = next.image.drop rest.length := by
  induction front with
  | nil => rw [List.nil_append,Compacts,if_pos hmatch]
  | cons first front ih =>
    rw [List.cons_append,Compacts,if_neg (hnone first List.mem_cons_self)]
    exact ih fun next hnext => hnone next (List.mem_cons_of_mem first hnext)

/-- One delete keeps the table equal to the list exactly when the copied bytes compact it. -/
theorem del_live_iff {st : CallBacks} (hst : st.WellFormed) (bus : UInt8) (id : UInt32) :
    (st.delCallBackForId bus id).live = tableCall st.live (.del bus id) ↔
      Compacts bus id st.live := by
  have hmem : ∀ n, ∀ entry ∈ (List.range n).map st.entryAt, ∃ j < n, entry = st.entryAt j := by
    intro n entry hentry
    obtain ⟨j,hj,rfl⟩ := List.mem_map.mp hentry
    exact ⟨j,List.mem_range.mp hj,rfl⟩
  rcases CallBacks.delFrom_cases st bus id st.nCurrentCbs 0 with
    ⟨hnone,hdel⟩ | ⟨j,-,hlt,hmatch,hbefore,hdel⟩
  · have hall : ∀ entry ∈ st.live, ¬(entry.bus = bus ∧ entry.id = id) := by
      intro entry hentry
      obtain ⟨j,hj,rfl⟩ := hmem _ entry hentry
      exact hnone j (Nat.zero_le j) (by omega)
    have herase : tableCall st.live (.del bus id) = st.live := by
      rw [tableCall,List.eraseP_of_forall_not]
      intro entry hentry
      simpa using hall entry hentry
    rw [CallBacks.delCallBackForId,hdel,herase]
    exact iff_of_true rfl (compacts_of_none hall)
  · obtain ⟨k,hk⟩ : ∃ k, st.nCurrentCbs = j + 1 + k := ⟨st.nCurrentCbs - (j + 1),by omega⟩
    have hfront : ∀ entry ∈ (List.range j).map st.entryAt,
        ¬(entry.bus = bus ∧ entry.id = id) := by
      intro entry hentry
      obtain ⟨m,hm,rfl⟩ := hmem _ entry hentry
      exact hbefore m (Nat.zero_le m) hm
    have hlive : st.live = (List.range j).map st.entryAt ++ st.entryAt j ::
        (List.range k).map fun m => st.entryAt (j + 1 + m) := by
      rw [CallBacks.live,hk,CallBacks.map_range_add,List.range_succ,List.map_append,
        List.append_assoc]
      rfl
    have herase : tableCall st.live (.del bus id) = (List.range j).map st.entryAt ++
        (List.range k).map fun m => st.entryAt (j + 1 + m) := by
      rw [tableCall,hlive,List.eraseP_append_right,List.eraseP_cons_of_pos]
      · simpa using hmatch
      · intro entry hentry
        simpa using hfront entry hentry
    rw [CallBacks.delCallBackForId,hdel,herase,CallBacks.live_removeAt_iff hst hk,hlive,
      compacts_append_iff hfront hmatch]
    rw [List.length_map,List.length_range,List.forall_mem_map]
    have hhead : ∀ m < k, ((List.range k).map fun m => st.entryAt (j + 1 + m)).head? =
        some (st.entryAt (j + 1)) := by
      intro m hm
      rw [List.head?_map,List.head?_range,if_neg (by omega)]
      rfl
    constructor
    · intro hsame m hm
      have hm := List.mem_range.mp hm
      rw [hhead m hm,Option.some_inj]
      exact hsame m hm
    · intro hsame m hm
      have hnext := hsame m (List.mem_range.mpr hm)
      rw [hhead m hm,Option.some_inj] at hnext
      exact hnext

/-- The three stores of `AddCallBackForId` fill the fields of the entry. -/
theorem ofImage_stores {bytes : List UInt8} (hlength : bytes.length = sizeofIdCbEntry)
    (bus : UInt8) (id cb : UInt32) :
    IdCbEntry.ofImage (splice (splice (splice bytes 0 [bus]) 4 (toBytes 4 id.toNat)) 8
      (toBytes 4 cb.toNat)) = ⟨bus,id,cb⟩ := by
  let withBus := splice bytes 0 [bus]
  let withId := splice withBus 4 (toBytes 4 id.toNat)
  let withCb := splice withId 8 (toBytes 4 cb.toNat)
  rw [sizeofIdCbEntry] at hlength
  have hbusLength : withBus.length = 12 := by
    rw [splice_length (by simp; omega),hlength]
  have hidLength : withId.length = 12 := by
    rw [splice_length (by rw [toBytes_length]; omega),hbusLength]
  have hbus : withCb.take 1 = [bus] := by
    rw [take_splice (by omega) (by rw [toBytes_length]; omega),
      take_splice (by omega) (by rw [toBytes_length]; omega)]
    rfl
  have hid : (withCb.drop 4).take 4 = toBytes 4 id.toNat := by
    have hfield : (withId.drop 4).take (toBytes 4 id.toNat).length = toBytes 4 id.toNat :=
      take_drop_splice (by rw [toBytes_length]; omega)
    rw [List.take_drop,take_splice (by omega) (by rw [toBytes_length]; omega),← List.take_drop]
    rwa [toBytes_length] at hfield
  have hcb : (withCb.drop 8).take 4 = toBytes 4 cb.toNat := by
    have hfield : (withCb.drop 8).take (toBytes 4 cb.toNat).length = toBytes 4 cb.toNat :=
      take_drop_splice (by rw [toBytes_length]; omega)
    rwa [toBytes_length] at hfield
  have hhead : withCb.headD 0 = bus := by
    have hfirst : (withCb.take 1).head? = withCb.head? := List.head?_take
    rw [List.headD_eq_head?_getD,← hfirst,hbus]
    rfl
  change IdCbEntry.ofImage withCb = _
  rw [IdCbEntry.ofImage,hhead,hid,hcb,uint32_ofBytes_toBytes,uint32_ofBytes_toBytes]

theorem add_live {st : CallBacks} (hst : st.WellFormed) (bus : UInt8) (id cb : UInt32) :
    (st.addCallBackForId bus id cb).live = tableCall st.live (.add bus id cb) ∧
      (st.addCallBackForId bus id cb).WellFormed := by
  have hlength : st.live.length = st.nCurrentCbs := by
    rw [CallBacks.live,List.length_map,List.length_range]
  rw [CallBacks.addCallBackForId,tableCall,hlength]
  by_cases hfull : st.nCurrentCbs = canSimultaneousCbs
  · rw [if_pos hfull,if_neg (Nat.not_lt_of_le (Nat.le_of_eq hfull.symm))]
    exact ⟨rfl,hst⟩
  · have hroom : st.nCurrentCbs < canSimultaneousCbs := Nat.lt_of_le_of_ne hst.count_le hfull
    rw [if_neg hfull,if_pos hroom]
    have htable := hst.table_length
    simp only [sizeofIdCbEntry,canSimultaneousCbs] at htable hroom
    let n := st.nCurrentCbs
    let withBus := splice st.idCbTable (sizeofIdCbEntry * n) [bus]
    let withId := splice withBus (sizeofIdCbEntry * n + 4) (toBytes 4 id.toNat)
    let withCb := splice withId (sizeofIdCbEntry * n + 8) (toBytes 4 cb.toNat)
    have hend : sizeofIdCbEntry * (n + 1) ≤ 120 := by
      rw [sizeofIdCbEntry]
      omega
    have hbus : withBus.length = 120 := by
      rw [splice_length] <;> simp only [sizeofIdCbEntry,List.length_singleton] at * <;> omega
    have hid : withId.length = 120 := by
      rw [splice_length] <;> simp only [sizeofIdCbEntry,toBytes_length] at * <;> omega
    have hcb : withCb.length = 120 := by
      rw [splice_length] <;> simp only [sizeofIdCbEntry,toBytes_length] at * <;> omega
    have hother : ∀ j, j ≠ n → CallBacks.imageAt ⟨n + 1,withCb⟩ j = st.imageAt j := by
      intro j hj
      have hcb' : CallBacks.imageAt ⟨n + 1,withCb⟩ j = CallBacks.imageAt ⟨n + 1,withId⟩ j := by
        apply CallBacks.imageAt_splice_of_ne hj (by omega) _ (by omega)
        rw [toBytes_length,sizeofIdCbEntry]
        omega
      have hid' : CallBacks.imageAt ⟨n + 1,withId⟩ j = CallBacks.imageAt ⟨n + 1,withBus⟩ j := by
        apply CallBacks.imageAt_splice_of_ne hj (by omega) _ (by omega)
        rw [toBytes_length,sizeofIdCbEntry]
        omega
      rw [hcb',hid']
      apply CallBacks.imageAt_splice_of_ne hj (Nat.le_refl _) _ (by omega)
      rw [List.length_singleton,sizeofIdCbEntry]
      omega
    have hself : CallBacks.imageAt ⟨n + 1,withCb⟩ n = splice (splice (splice (st.imageAt n) 0
        [bus]) 4 (toBytes 4 id.toNat)) 8 (toBytes 4 cb.toNat) := by
      have hcb' : CallBacks.imageAt ⟨n + 1,withCb⟩ n =
          splice (CallBacks.imageAt ⟨n + 1,withId⟩ n) 8 (toBytes 4 cb.toNat) :=
        CallBacks.imageAt_splice_self (by rw [toBytes_length,sizeofIdCbEntry]) (by omega)
      have hid' : CallBacks.imageAt ⟨n + 1,withId⟩ n =
          splice (CallBacks.imageAt ⟨n + 1,withBus⟩ n) 4 (toBytes 4 id.toNat) := by
        apply CallBacks.imageAt_splice_self _ (by omega)
        rw [toBytes_length,sizeofIdCbEntry]
        omega
      have hbus' : CallBacks.imageAt ⟨n + 1,withBus⟩ n = splice (st.imageAt n) 0 [bus] := by
        apply CallBacks.imageAt_splice_self (d := 0) _ (by omega)
        rw [List.length_singleton,sizeofIdCbEntry]
        omega
      rw [hcb',hid',hbus']
    refine ⟨?_,⟨hcb,hroom⟩⟩
    change (List.range (n + 1)).map (CallBacks.entryAt ⟨n + 1,withCb⟩) = _
    rw [List.range_succ,List.map_append,List.map_singleton,CallBacks.live]
    congr 1
    · apply List.map_congr_left
      intro j hj
      rw [CallBacks.entryAt,hother j (Nat.ne_of_lt (List.mem_range.mp hj)),CallBacks.entryAt]
    · rw [CallBacks.entryAt,hself,ofImage_stores (CallBacks.imageAt_length hst hroom)]

theorem call_wellFormed {st : CallBacks} (hst : st.WellFormed) (call : TableCall) :
    (st.call call).WellFormed := by
  cases call with
  | add bus id cb => exact (add_live hst bus id cb).2
  | del bus id =>
    rcases CallBacks.delFrom_cases st bus id st.nCurrentCbs 0 with
      ⟨-,hdel⟩ | ⟨j,-,hlt,-,-,hdel⟩
    · rw [CallBacks.call,CallBacks.delCallBackForId,hdel]
      exact hst
    · rw [CallBacks.call,CallBacks.delCallBackForId,hdel]
      exact CallBacks.removeAt_wellFormed hst (by omega)

theorem call_live_iff {st : CallBacks} (hst : st.WellFormed) (call : TableCall) :
    (st.call call).live = tableCall st.live call ↔ TableCallOk st.live call := by
  cases call with
  | add bus id cb => exact iff_of_true (add_live hst bus id cb).1 trivial
  | del bus id => exact del_live_iff hst bus id

/-- The live table is the list of its entries after every prefix of a run exactly when every
delete of the run meets a list that its byte copy compacts. -/
theorem callBackTable_exact (memory : List UInt8)
    (hmemory : memory.length = sizeofIdCbEntry * canSimultaneousCbs) (calls : List TableCall) :
    (∀ before, before <+: calls →
      (before.foldl CallBacks.call (CallBacks.new memory)).live = before.foldl tableCall []) ↔
      Transition.Along tableCall TableCallOk [] calls := by
  apply Transition.related_prefixes_iff (I := CallBacks.WellFormed)
    (R := fun st entries => st.live = entries)
  · exact fun st call hst => call_wellFormed hst call
  · rintro st _ call hst rfl
    exact call_live_iff hst call
  · exact ⟨hmemory,Nat.zero_le _⟩
  · rfl

/-- Deleting the last entry, or none, keeps the table exact. -/
theorem callBackTable_exact_last :
    (([.add 1 16 100,.add 1 32 200,.del 1 32,.del 2 5] : List TableCall).foldl CallBacks.call
      (CallBacks.new (List.replicate 120 0))).live = [⟨1,16,100⟩] := by
  have hprefixes := (callBackTable_exact (List.replicate 120 0) (by decide)
    [.add 1 16 100,.add 1 32 200,.del 1 32,.del 2 5]).mpr
    (by simp [Transition.Along,TableCallOk,Compacts,tableCall,canSimultaneousCbs])
  exact hprefixes _ List.prefix_rfl

/-- Deleting the first of two entries keeps the deleted one and drops the other. -/
theorem callBackTable_keeps_deleted :
    let calls : List TableCall := [.add 1 16 100,.add 1 32 200,.del 1 16]
    (calls.foldl CallBacks.call (CallBacks.new (List.replicate 120 0))).live = [⟨1,16,100⟩] ∧
      (calls.foldl CallBacks.call (CallBacks.new (List.replicate 120 0))).live ≠
        calls.foldl tableCall [] := by
  decide

end Pyrn.Can
