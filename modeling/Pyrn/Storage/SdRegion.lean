import Pyrn.Framework.Run
import Pyrn.Storage.SdCircBuff
import Pyrn.Storage.SdTransfer

/-!
# Region isolation on the SD card

In any environment every request ends, `Read` leaves the card as it is, and what `Write`, `Put`
and `Get` change lies in the sectors of their own region, as long as a `Write` behind an offset
stays in the region. `Clear` and the constructor of the circular buffer name a sector of the card.
-/

namespace Pyrn.Storage

open BlockCopy

/-- The sectors of a region. -/
def SdStorage.Has (region : SdStorage) (block : Int) : Prop :=
  region.iSectorStart ≤ block ∧ block < region.iSectorStart + region.nSectors

instance (region : SdStorage) (block : Int) : Decidable (region.Has block) :=
  inferInstanceAs (Decidable (_ ∧ _))

/-- Nothing outside the region is changed. -/
def SdStorage.Confines (region : SdStorage) (s s' : SdState) : Prop :=
  ∀ x, ¬region.Has (x / 512) → s'.card x = s.card x

/-- Nothing in the region is changed. -/
def SdStorage.Kept (region : SdStorage) (s s' : SdState) : Prop :=
  ∀ x, region.Has (x / 512) → s'.card x = s.card x

theorem confines_of_card_eq {region : SdStorage} {s s' : SdState} (h : s'.card = s.card) :
    region.Confines s s' := fun x _ => congrFun h x

theorem SdStorage.Confines.trans {region : SdStorage} {s₁ s₂ s₃ : SdState}
    (hfirst : region.Confines s₁ s₂) (hnext : region.Confines s₂ s₃) : region.Confines s₁ s₃ :=
  fun x hx => (hnext x hx).trans (hfirst x hx)

variable (env : SdEnv) {region : SdStorage}

theorem diskRead_card (block : Int) (s : SdState) : (diskRead env block s).2.card = s.card := by
  unfold diskRead
  split
  · split <;> rfl
  · rfl

/-- A sector write changes nothing outside its sector. -/
theorem diskWrite_card (buffer : Bytes) (block : Int) (s : SdState) (x : Int)
    (hx : x < block * 512 ∨ (block + 1) * 512 ≤ x) :
    (diskWrite env buffer block s).2.card x = s.card x := by
  unfold diskWrite
  split
  · split
    · simp only
      split
      · exact copy_outside (by omega)
      · rfl
    · rfl
  · rfl

theorem writeBase_card (v : LoopVars) (s : SdState) : (writeBase env v s).2.card = s.card := by
  unfold writeBase
  split
  · exact diskRead_card env _ _
  · rfl

/-- The loop of `Read` ends and leaves the card as it is. -/
theorem readLoop_ends {start length : Int} (fuel : Nat) (v : LoopVars) (buffer : Bytes)
    (s : SdState) (hfuel : 0 < fuel ∧ length - v.i < fuel)
    (hoffset : 0 ≤ v.offset ∧ v.offset < 512) (hfirst : v.offset = 0 ∨ v.i = 0) :
    ∃ err buffer' s', readLoop env start length fuel v buffer s = some (err,buffer',s') ∧
      s'.card = s.card := by
  induction fuel generalizing v buffer s with
  | zero => omega
  | succ fuel ih =>
    rw [readLoop]
    by_cases hmore : v.i < length
    · rw [if_pos hmore]
      have hcard := diskRead_card env v.currSectorIndex s
      obtain ⟨hpos,hle,-⟩ := nCpy_spec hmore hoffset hfirst
      cases hread : diskRead env v.currSectorIndex s with
      | mk block s₁ =>
        rw [hread] at hcard
        cases block with
        | none => exact ⟨_,_,_,rfl,hcard⟩
        | some bufftmp =>
          obtain ⟨err,buffer',s',hrest,hcard'⟩ := ih (v.next length) _ s₁
            (by simp only [LoopVars.next]; omega) (by simp only [LoopVars.next]; omega) (.inl rfl)
          exact ⟨err,buffer',s',hrest,hcard'.trans hcard⟩
    · rw [if_neg hmore]
      exact ⟨_,_,_,rfl,rfl⟩

/-- The loop of `Write` ends and changes no byte in front of its first sector nor behind the
sector of its last byte. -/
theorem writeLoop_ends (buffer : Bytes) (start length last : Int) (fuel : Nat)
    (v : LoopVars) (s : SdState) (hfuel : 0 < fuel ∧ length - v.i < fuel)
    (hoffset : 0 ≤ v.offset ∧ v.offset < 512) (hfirst : v.offset = 0 ∨ v.i = 0)
    (hlast : v.i < length → v.currSectorIndex * 512 + v.offset + (length - v.i) ≤ last * 512) :
    ∃ err s', writeLoop env buffer start length fuel v s = some (err,s') ∧
      ∀ x, x < v.currSectorIndex * 512 ∨ last * 512 ≤ x → s'.card x = s.card x := by
  induction fuel generalizing v s with
  | zero => omega
  | succ fuel ih =>
    rw [writeLoop]
    by_cases hmore : v.i < length
    · rw [if_pos hmore]
      have hbase := writeBase_card env v s
      obtain ⟨hpos,hle,hcases⟩ := nCpy_spec hmore hoffset hfirst
      have hsector := hlast hmore
      cases hread : writeBase env v s with
      | mk base s₁ =>
        rw [hread] at hbase
        cases base with
        | none => exact ⟨_,_,rfl,fun x _ => congrFun hbase x⟩
        | some base =>
          simp only
          have hwritten := diskWrite_card env
            (copy base v.offset buffer (start + v.i) (nCpy length v.i v.offset))
            v.currSectorIndex s₁
          generalize diskWrite env (copy base v.offset buffer (start + v.i)
            (nCpy length v.i v.offset)) v.currSectorIndex s₁ = result at hwritten
          obtain ⟨err,s₂⟩ := result
          have hturn : ∀ x, x < v.currSectorIndex * 512 ∨ last * 512 ≤ x →
              s₂.card x = s.card x := by
            intro x hx
            rw [hwritten x (by omega),hbase]
          by_cases herr : err = -1
          · rw [if_pos herr]
            exact ⟨_,_,rfl,hturn⟩
          · rw [if_neg herr]
            obtain ⟨err',s',hrest,hcard⟩ := ih (v.next length) s₂.unlock
              (by simp only [LoopVars.next]; omega) (by simp only [LoopVars.next]; omega)
              (.inl rfl) (by simp only [LoopVars.next]; omega)
            refine ⟨err',s',hrest,fun x hx => ?_⟩
            rw [hcard x (by simp only [LoopVars.next]; omega)]
            exact hturn x hx
    · rw [if_neg hmore]
      exact ⟨_,_,rfl,fun _ _ => rfl⟩

/-- Every `Read` ends and leaves the card as it is. -/
theorem read_ends (region : SdStorage) (buffer : Bytes) (start index length offset : Int)
    (s : SdState)
    (hoffset : 0 ≤ offset ∧ offset < 512) :
    ∃ err buffer' s', region.read env buffer start index length offset s =
      some (err,buffer',s') ∧ s'.card = s.card := by
  unfold SdStorage.read
  split
  · exact readLoop_ends env _ _ _ _ (by simp only [SdStorage.begin,turns]; omega) hoffset (.inr rfl)
  · exact ⟨_,_,_,rfl,rfl⟩

/-- Every `Write` that begins a sector, fits in the region or begins behind it ends and changes
nothing outside the region. -/
theorem write_ends (region : SdStorage) (buffer : Bytes) (start : Int)
    {index length offset : Int} (s : SdState) (hindex : 0 ≤ index)
    (hoffset : 0 ≤ offset ∧ offset < 512)
    (hfits : offset = 0 ∨ length ≤ region.room index offset ∨ region.room index offset ≤ 0) :
    ∃ err s', region.write env buffer start index length offset s = some (err,s') ∧
      region.Confines s s' := by
  unfold SdStorage.write
  split
  · simp only
    have hroom : region.room index offset = (region.nSectors - index) * 512 - offset := rfl
    generalize hcut : (if region.room index offset < length then (region.nSectors - index) * 512
      else length) = cut
    have hend : 0 < cut → (region.begin index offset).currSectorIndex * 512 + offset + cut ≤
        (region.iSectorStart + region.nSectors) * 512 := by
      intro hpos
      simp only [SdStorage.begin]
      split_ifs at hcut <;> omega
    obtain ⟨err,s',hloop,hcard⟩ := writeLoop_ends env buffer start cut
      (region.iSectorStart + region.nSectors) (turns cut)
      (region.begin index offset) (s.trylock env) (by simp only [SdStorage.begin,turns]; omega)
      hoffset (.inr rfl) (by simpa only [SdStorage.begin,Int.sub_zero] using hend)
    refine ⟨err,s',hloop,fun x hx => hcard x ?_⟩
    simp only [SdStorage.begin]
    unfold SdStorage.Has at hx
    omega
  · exact ⟨_,_,rfl,confines_of_card_eq rfl⟩

/-- A circular buffer over a region, whose cursors may be anywhere but in front of it. -/
structure SdCircBuff.Seated (region : SdStorage) (ring : SdCircBuff) : Prop where
  storage : ring.toSdStorage = region
  size : ring.size = region.nSectors * 512
  int : 0 ≤ ring.size ∧ ring.size < 2 ^ 31
  pRead : 0 ≤ ring.pRead
  pWrite : 0 ≤ ring.pWrite

section Ring

open SdCircBuff

variable {ring : SdCircBuff}

theorem room_of_seated (hring : ring.Seated region) {p : Int} (hp : 0 ≤ p) :
    (0 ≤ p.tdiv 512 ∧ 0 ≤ p.tmod 512 ∧ p.tmod 512 < 512) ∧
      ring.room (p.tdiv 512) (p.tmod 512) = ring.size - p := by
  have hdiv : p.tdiv 512 = p / 512 := Int.tdiv_eq_ediv_of_nonneg hp
  have hmod : p.tmod 512 = p % 512 := Int.tmod_eq_emod_of_nonneg hp
  rw [SdStorage.room,hring.size,hring.storage,hdiv,hmod]
  omega

theorem writeAt_ends (hring : ring.Seated region) (buffer : Bytes) (start p length : Int)
    (s : SdState) (hp : 0 ≤ p) (hfits : length ≤ ring.size - p ∨ ring.size ≤ p) :
    ∃ err s', ring.writeAt env buffer start p length s = some (err,s') ∧ region.Confines s s' := by
  obtain ⟨⟨hindex,hoffset⟩,hroom⟩ := room_of_seated hring hp
  rw [← hring.storage]
  exact write_ends env ring.toSdStorage buffer start s hindex hoffset (by omega)

theorem writeStart_ends (hring : ring.Seated region) (buffer : Bytes) (start length : Int)
    (s : SdState) :
    ∃ err s', ring.write env buffer start 0 length 0 s = some (err,s') ∧ region.Confines s s' := by
  rw [← hring.storage]
  exact write_ends env ring.toSdStorage buffer start s (Int.le_refl 0) (by decide) (.inl rfl)

theorem readAt_ends (hring : ring.Seated region) (buffer : Bytes) (start : Int) {p : Int}
    (length : Int) (s : SdState) (hp : 0 ≤ p) :
    ∃ err buffer' s', ring.readAt env buffer start p length s = some (err,buffer',s') ∧
      s'.card = s.card :=
  read_ends env ring.toSdStorage buffer start _ length _ s (room_of_seated hring hp).1.2

theorem putWhole_ends (hring : ring.Seated region) (buffer : Bytes) {length : Int} (s : SdState)
    (hlength : 0 ≤ length ∧ length ≤ 2048)
    (hbehind : toUnsigned (length + sizeofInt) ≤ ring.behind ring.pWrite) :
    ∃ err ring' s', ring.putWhole env buffer length s = some (err,ring',s') ∧
      ring'.Seated region ∧ region.Confines s s' := by
  have hint := hring.int
  have hpWrite := hring.pWrite
  simp only [toUnsigned,behind,sizeofInt] at hbehind
  obtain ⟨err,s₁,hheader,hconfines₁⟩ := writeAt_ends env hring (intMemory length) 0
    ring.pWrite sizeofInt s hring.pWrite (by simp only [sizeofInt]; omega)
  rw [putWhole,hheader]
  simp only [Option.bind_eq_bind,Option.bind_some]
  by_cases herr : err = -1
  · rw [if_pos herr]
    exact ⟨_,_,_,rfl,hring,hconfines₁⟩
  · rw [if_neg herr]
    have hmoved : { ring with pWrite := ring.pWrite + sizeofInt }.Seated region :=
      ⟨hring.storage,hring.size,hint,hring.pRead,by simp only [sizeofInt]; omega⟩
    obtain ⟨err',s₂,hdata,hconfines₂⟩ := writeAt_ends env hmoved buffer 0
      (ring.pWrite + sizeofInt) length s₁ hmoved.pWrite
      (by simp only [sizeofInt]; omega)
    rw [hdata]
    refine ⟨_,_,_,rfl,⟨hring.storage,hring.size,hint,hring.pRead,?_⟩,hconfines₁.trans hconfines₂⟩
    have hfour : sizeofInt = 4 := rfl
    simp only
    split <;> omega

theorem putBetween_ends (hring : ring.Seated region) (buffer : Bytes) {length : Int}
    (s : SdState) (hlength : 0 ≤ length) (hbehind : sizeofInt = ring.behind ring.pWrite) :
    ∃ err ring' s', ring.putBetween env buffer length s = some (err,ring',s') ∧
      ring'.Seated region ∧ region.Confines s s' := by
  have hint := hring.int
  have hpWrite := hring.pWrite
  simp only [toUnsigned,behind,sizeofInt] at hbehind
  obtain ⟨err,s₁,hheader,hconfines₁⟩ := writeAt_ends env hring (intMemory length) 0
    ring.pWrite sizeofInt s hring.pWrite (by simp only [sizeofInt]; omega)
  obtain ⟨err',s₂,hdata,hconfines₂⟩ := writeStart_ends env hring buffer 0 length s₁
  rw [putBetween,hheader]
  simp only [Option.bind_eq_bind,Option.bind_some,hdata]
  split
  · exact ⟨_,_,_,rfl,hring,hconfines₁⟩
  · split
    · exact ⟨_,_,_,rfl,hring,hconfines₁.trans hconfines₂⟩
    · exact ⟨_,_,_,rfl,⟨hring.storage,hring.size,hint,hring.pRead,hlength⟩,
        hconfines₁.trans hconfines₂⟩

theorem putHeader_ends (hring : ring.Seated region) (length : Int) (s : SdState) :
    ∃ err ring' s', ring.putHeader env length s = some (err,ring',s') ∧
      ring'.Seated region ∧ region.Confines s s' := by
  have hint := hring.int
  have hpWrite := hring.pWrite
  unfold putHeader
  split
  · rename_i hbehind
    simp only [toUnsigned,behind,sizeofInt] at hbehind
    obtain ⟨err,s₁,hheader,hconfines⟩ := writeAt_ends env hring (intMemory length) 0
      ring.pWrite sizeofInt s hring.pWrite (by simp only [sizeofInt]; omega)
    rw [hheader]
    simp only [Option.bind_eq_bind,Option.bind_some]
    split
    · exact ⟨_,_,_,rfl,hring,hconfines⟩
    · exact ⟨_,_,_,rfl,⟨hring.storage,hring.size,hint,hring.pRead,
        by simp only [sizeofInt]; omega⟩,hconfines⟩
  · rename_i hbehind
    simp only [toUnsigned,behind,sizeofInt] at hbehind
    obtain ⟨err,s₁,hlow,hconfines₁⟩ := writeAt_ends env hring (intMemory length) 0
      ring.pWrite (ring.size - ring.pWrite) s hring.pWrite (by omega)
    obtain ⟨err',s₂,hhigh,hconfines₂⟩ := writeStart_ends env hring (intMemory length)
      (ring.size - ring.pWrite) (sizeofInt - (ring.size - ring.pWrite)) s₁
    simp only [Option.bind_eq_bind,Option.bind_some,hlow,hhigh]
    split
    · exact ⟨_,_,_,rfl,hring,hconfines₁⟩
    · exact ⟨_,_,_,rfl,⟨hring.storage,hring.size,hint,hring.pRead,
        by simp only [sizeofInt]; omega⟩,hconfines₁.trans hconfines₂⟩

theorem putData_ends (hring : ring.Seated region) (buffer : Bytes) {length : Int} (s : SdState)
    (hlength : 0 ≤ length) :
    ∃ err ring' s', ring.putData env buffer length s = some (err,ring',s') ∧
      ring'.Seated region ∧ region.Confines s s' := by
  have hint := hring.int
  have hpWrite := hring.pWrite
  unfold putData
  split
  · rename_i hwhole
    obtain ⟨err,s₁,hdata,hconfines⟩ := writeAt_ends env hring buffer 0
      ring.pWrite length s hring.pWrite (by omega)
    rw [hdata]
    simp only [Option.bind_eq_bind,Option.bind_some]
    split
    · exact ⟨_,_,_,rfl,hring,hconfines⟩
    · exact ⟨_,_,_,rfl,⟨hring.storage,hring.size,hint,hring.pRead,by simp only; omega⟩,
        hconfines⟩
  · rename_i hsplit
    obtain ⟨err,s₁,hlow,hconfines₁⟩ := writeAt_ends env hring buffer 0
      ring.pWrite (ring.size - ring.pWrite) s hring.pWrite (by omega)
    obtain ⟨err',s₂,hhigh,hconfines₂⟩ := writeStart_ends env hring buffer
      (ring.size - ring.pWrite) (length - (ring.size - ring.pWrite)) s₁
    simp only [Option.bind_eq_bind,Option.bind_some,hlow,hhigh]
    split
    · exact ⟨_,_,_,rfl,hring,hconfines₁⟩
    · split
      · exact ⟨_,_,_,rfl,hring,hconfines₁.trans hconfines₂⟩
      · exact ⟨_,_,_,rfl,⟨hring.storage,hring.size,hint,hring.pRead,by simp only; omega⟩,
          hconfines₁.trans hconfines₂⟩

theorem putRecord_ends (hring : ring.Seated region) (buffer : Bytes) (length : Int) (s : SdState)
    (hlength : 0 ≤ length ∧ length ≤ 2048) :
    ∃ err ring' s', ring.putRecord env buffer length s = some (err,ring',s') ∧
      ring'.Seated region ∧ region.Confines s s' := by
  unfold putRecord
  split
  · rename_i hwhole
    exact putWhole_ends env hring buffer s hlength hwhole
  · split
    · rename_i hbetween
      exact putBetween_ends env hring buffer s hlength.1 hbetween
    · obtain ⟨err,ring₁,s₁,hheader,hring₁,hconfines₁⟩ := putHeader_ends env hring length s
      obtain ⟨err',ring₂,s₂,hdata,hring₂,hconfines₂⟩ :=
        putData_ends env hring₁ buffer s₁ hlength.1
      rw [putSplit,hheader]
      simp only [Option.bind_eq_bind,Option.bind_some,hdata]
      split
      · exact ⟨_,_,_,rfl,hring₁,hconfines₁⟩
      · exact ⟨_,_,_,rfl,hring₂,hconfines₁.trans hconfines₂⟩

/-- Every `Put` ends and changes nothing outside the region. -/
theorem put_ends (hring : ring.Seated region) (buffer : Bytes) (length : Int) (s : SdState) :
    ∃ ret ring' s', ring.put env buffer length s = some (ret,ring',s') ∧
      ring'.Seated region ∧ region.Confines s s' := by
  unfold put
  split
  · split
    · exact ⟨_,_,_,rfl,hring,confines_of_card_eq rfl⟩
    · rename_i hlength
      split
      · obtain ⟨err,ring₁,s₁,hrecord,hring₁,hconfines⟩ := putRecord_ends env hring buffer
          length (s.trylock env) (by omega)
        rw [hrecord]
        simp only [Option.bind_eq_bind,Option.bind_some]
        split
        · exact ⟨_,_,_,rfl,hring₁,hconfines⟩
        · exact ⟨_,_,_,rfl,⟨hring₁.storage,hring₁.size,hring₁.int,hring₁.pRead,hring₁.pWrite⟩,
            hconfines⟩
      · exact ⟨_,_,_,rfl,hring,confines_of_card_eq rfl⟩
  · exact ⟨_,_,_,rfl,hring,confines_of_card_eq rfl⟩

theorem readHeader_ends (hring : ring.Seated region) (blocLen : Bytes) (s : SdState) :
    ∃ err memory split s', ring.readHeader env blocLen s = some (err,memory,split,s') ∧
      0 ≤ ring.headerEnd split ∧ s'.card = s.card := by
  have hint := hring.int
  have hpRead := hring.pRead
  have hfour : sizeofInt = 4 := rfl
  unfold readHeader
  split
  · obtain ⟨err,memory,s₁,hread,hcard⟩ := readAt_ends env hring blocLen 0 sizeofInt s
      hring.pRead
    simp only [Option.bind_eq_bind,Option.bind_some,hread]
    refine ⟨_,_,_,_,rfl,?_,hcard⟩
    simp only [headerEnd,Bool.false_eq_true,if_false]
    split <;> omega
  · rename_i hsplit
    simp only [toUnsigned,behind,sizeofInt] at hsplit
    have hnext : 0 ≤ ring.headerEnd true := by
      simp only [headerEnd,if_true]
      omega
    obtain ⟨err,low,s₁,hlow,hcard₁⟩ := readAt_ends env hring blocLen 0
      (ring.size - ring.pRead) s hring.pRead
    obtain ⟨err',memory,s₂,hhigh,hcard₂⟩ := read_ends env ring.toSdStorage low
      (ring.size - ring.pRead) 0 (sizeofInt - (ring.size - ring.pRead)) 0 s₁ (by decide)
    simp only [Option.bind_eq_bind,Option.bind_some,hlow,hhigh]
    split
    · exact ⟨_,_,_,_,rfl,hnext,hcard₁⟩
    · exact ⟨_,_,_,_,rfl,hnext,hcard₂.trans hcard₁⟩

theorem getData_ends (hring : ring.Seated region) (buffer : Bytes) (blocLen : Int) (s : SdState)
    (hpos : 0 < blocLen) :
    ∃ err buffer' ring' s', ring.getData env buffer blocLen s = some (err,buffer',ring',s') ∧
      ring'.Seated region ∧ s'.card = s.card := by
  have hint := hring.int
  have hpRead := hring.pRead
  unfold getData
  split
  · obtain ⟨err,filled,s₁,hread,hcard⟩ := readAt_ends env hring buffer 0 blocLen s
      hring.pRead
    simp only [Option.bind_eq_bind,Option.bind_some,hread]
    split
    · exact ⟨_,_,_,_,rfl,hring,hcard⟩
    · refine ⟨_,_,_,_,rfl,⟨hring.storage,hring.size,hint,?_,hring.pWrite⟩,hcard⟩
      simp only
      split <;> omega
  · rename_i hsplit
    obtain ⟨err,low,s₁,hlow,hcard₁⟩ := readAt_ends env hring buffer 0 blocLen s
      hring.pRead
    obtain ⟨err',filled,s₂,hhigh,hcard₂⟩ := read_ends env ring.toSdStorage low
      (ring.size - ring.pRead) 0 (blocLen - (ring.size - ring.pRead)) 0 s₁ (by decide)
    simp only [Option.bind_eq_bind,Option.bind_some,hlow,hhigh]
    split
    · exact ⟨_,_,_,_,rfl,hring,hcard₁⟩
    · split
      · exact ⟨_,_,_,_,rfl,hring,hcard₂.trans hcard₁⟩
      · exact ⟨_,_,_,_,rfl,⟨hring.storage,hring.size,hint,by simp only; omega,hring.pWrite⟩,
          hcard₂.trans hcard₁⟩

/-- Every `Get` ends and leaves the card as it is. -/
theorem get_ends (hring : ring.Seated region) (stack buffer : Bytes) (length : Int)
    (s : SdState) :
    ∃ ret buffer' ring' s', ring.get env stack buffer length s = some (ret,buffer',ring',s') ∧
      ring'.Seated region ∧ s'.card = s.card := by
  unfold SdCircBuff.get
  split
  · split
    · obtain ⟨err,memory,split,s₁,hheader,hnext,hcard₁⟩ := readHeader_ends env hring stack
        (s.trylock env)
      rw [hheader]
      simp only [Option.bind_eq_bind,Option.bind_some]
      have hmoved : { ring with pRead := ring.headerEnd split }.Seated region :=
        ⟨hring.storage,hring.size,hring.int,hnext,hring.pWrite⟩
      split
      · exact ⟨_,_,_,_,rfl,hring,hcard₁⟩
      · split
        · exact ⟨_,_,_,_,rfl,hmoved,hcard₁⟩
        · rename_i hrange
          split
          · exact ⟨_,_,_,_,rfl,hmoved,hcard₁⟩
          · obtain ⟨err',filled,ring₂,s₂,hdata,hring₂,hcard₂⟩ := getData_ends env hmoved
              buffer (intAt memory) s₁ (by omega)
            rw [hdata]
            simp only [Option.bind_some]
            split
            · exact ⟨_,_,_,_,rfl,hring₂,hcard₂.trans hcard₁⟩
            · exact ⟨_,_,_,_,rfl,
                ⟨hring₂.storage,hring₂.size,hring₂.int,hring₂.pRead,hring₂.pWrite⟩,
                hcard₂.trans hcard₁⟩
    · exact ⟨_,_,_,_,rfl,hring,rfl⟩
  · exact ⟨_,_,_,_,rfl,hring,rfl⟩

/-- Every `Probe` ends and leaves the card as it is. -/
theorem probe_ends (hring : ring.Seated region) (s : SdState) :
    ∃ ret ring' s', ring.probe env s = some (ret,ring',s') ∧ ring'.Seated region ∧
      s'.card = s.card := by
  unfold probe
  split
  · split
    · obtain ⟨err,memory,split,s₁,hheader,-,hcard⟩ := readHeader_ends env hring
        (intMemory 0) (s.trylock env)
      rw [hheader]
      simp only [Option.bind_eq_bind,Option.bind_some]
      split
      · exact ⟨_,_,_,rfl,hring,hcard⟩
      · refine ⟨_,_,_,rfl,?_,hcard⟩
        split
        · exact ⟨hring.storage,hring.size,hring.int,Int.le_refl 0,hring.pWrite⟩
        · exact hring
    · exact ⟨_,_,_,rfl,hring,rfl⟩
  · exact ⟨_,_,_,rfl,hring,rfl⟩

end Ring

/-- A call on a storage object with the memory behind its buffer argument. -/
inductive StorageCall
  | read (buffer : Bytes) (index length offset : Int)
  | write (buffer : Bytes) (index length offset : Int)
  | clear (index : Int)

/-- A call on a circular buffer; `stack` is the memory of a local variable of `Get`. -/
inductive SdCall
  | storage (call : StorageCall)
  | put (buffer : Bytes) (length : Int)
  | get (stack buffer : Bytes) (length : Int)
  | probe

/-- The returned `int` and the caller's buffer after the call. -/
structure SdReply where
  ret : Int
  buffer : Bytes

def SdStorage.call (env : SdEnv) (region : SdStorage) (s : SdState) :
    StorageCall → Option (SdReply × SdState)
  | .read buffer index length offset => do
      let (ret,filled,s) ← region.read env buffer 0 index length offset s
      return (⟨ret,filled⟩,s)
  | .write buffer index length offset => do
      let (ret,s) ← region.write env buffer 0 index length offset s
      return (⟨ret,buffer⟩,s)
  | .clear index =>
      let (ret,s) := SdStorage.clear env index s
      some (⟨ret,fun _ => 0⟩,s)

def SdCircBuff.call (env : SdEnv) (object : SdCircBuff × SdState) :
    SdCall → Option (SdReply × SdCircBuff × SdState)
  | .storage call => do
      let (reply,s) ← object.1.toSdStorage.call env object.2 call
      return (reply,object.1,s)
  | .put buffer length => do
      let (ret,ring,s) ← object.1.put env buffer length object.2
      return (⟨ret,buffer⟩,ring,s)
  | .get stack buffer length => do
      let (ret,filled,ring,s) ← object.1.get env stack buffer length object.2
      return (⟨ret,filled⟩,ring,s)
  | .probe => do
      let (ret,ring,s) ← object.1.probe env object.2
      return (⟨ret,fun _ => 0⟩,ring,s)

/-- The arguments of a call on a region: a sector of it, no negative length, and an offset inside
the sector. -/
def SdStorage.Addresses (region : SdStorage) : StorageCall → Prop
  | .read _ index length offset | .write _ index length offset =>
      (0 ≤ index ∧ index < region.nSectors) ∧ 0 ≤ length ∧ 0 ≤ offset ∧ offset < 512
  | .clear index => 0 ≤ index ∧ index < region.nSectors

instance (region : SdStorage) : ∀ call, Decidable (region.Addresses call)
  | .read .. | .write .. => inferInstanceAs (Decidable (_ ∧ _))
  | .clear _ => inferInstanceAs (Decidable (_ ∧ _))

/-- What a call may not do: a `Write` behind an offset that reaches past the end of the region,
and a `Clear` whose index is a sector of the other region. -/
def SdStorage.Spares (region other : SdStorage) : StorageCall → Prop
  | .read .. => True
  | .write _ index length offset => offset = 0 ∨ length ≤ region.room index offset
  | .clear index => ¬other.Has index

instance (region other : SdStorage) : ∀ call, Decidable (region.Spares other call)
  | .read .. => inferInstanceAs (Decidable True)
  | .write .. => inferInstanceAs (Decidable (_ ∨ _))
  | .clear _ => inferInstanceAs (Decidable (¬_))

/-- No sector belongs to both regions. -/
def SdStorage.Apart (region other : SdStorage) : Prop :=
  ∀ block, region.Has block → ¬other.Has block

theorem apart_of_le {other : SdStorage}
    (h : region.iSectorStart + region.nSectors ≤ other.iSectorStart ∨
      other.iSectorStart + other.nSectors ≤ region.iSectorStart) : region.Apart other := by
  intro block hregion hother
  unfold SdStorage.Has at hregion hother
  omega

theorem SdStorage.Confines.kept {other : SdStorage} {s s' : SdState} (h : region.Confines s s')
    (hapart : region.Apart other) : other.Kept s s' :=
  fun x hx => h x fun hregion => hapart _ hregion hx

theorem kept_of_card_eq {other : SdStorage} {s s' : SdState} (h : s'.card = s.card) :
    other.Kept s s' := fun x _ => congrFun h x

theorem SdStorage.Kept.trans {other : SdStorage} {s₁ s₂ s₃ : SdState} (hfirst : other.Kept s₁ s₂)
    (hnext : other.Kept s₂ s₃) : other.Kept s₁ s₃ :=
  fun x hx => (hnext x hx).trans (hfirst x hx)

variable {env} in
/-- On a faultless card a `Write` into the region stays in it, whatever the bytes, exactly when it
begins a sector or fits. -/
theorem write_confines_iff (henv : env.Faultless) {index length offset : Int}
    (hindex : 0 ≤ index ∧ index < region.nSectors) (hoffset : 0 ≤ offset ∧ offset < 512) :
    (∀ buffer start s err s', region.write env buffer start index length offset s = some (err,s') →
        region.Confines s s') ↔ offset = 0 ∨ length ≤ region.room index offset := by
  constructor
  · intro hconfines
    by_contra hspills
    obtain ⟨hmiddle,hpast⟩ := not_or.mp hspills
    let blank : SdState := ⟨fun _ => 0,.new,.new,0,[]⟩
    obtain ⟨s',hwrite,hcard⟩ := write_overruns henv (fun _ => 1) 0 blank hindex.2
      hoffset (Int.not_le.mp hpast)
    have hkept := hconfines _ _ _ _ _ hwrite ((region.iSectorStart + region.nSectors) * 512)
      (by unfold SdStorage.Has; omega)
    rw [hcard,written_inside (by omega) (by omega)] at hkept
    exact absurd hkept (show (1 : UInt8) ≠ 0 by decide)
  · intro hspares buffer start s err s' hwrite
    obtain ⟨err',s'',hwrite',hconfines⟩ := write_ends env region buffer start
      s hindex.1 hoffset (hspares.imp_right .inl)
    rw [hwrite] at hwrite'
    obtain ⟨-,rfl⟩ := Prod.mk.inj (Option.some.inj hwrite')
    exact hconfines

theorem clear_keeps {other : SdStorage} {index : Int} (hindex : ¬other.Has index) (s : SdState) :
    other.Kept s (SdStorage.clear env index s).2 := by
  intro x hx
  unfold SdStorage.Has at hindex hx
  unfold SdStorage.clear
  split
  · exact diskWrite_card env _ _ _ x (by omega)
  · rfl

theorem storageCall_keeps {other : SdStorage} (hapart : region.Apart other) (s : SdState)
    (call : StorageCall) (haddress : region.Addresses call) (hspares : region.Spares other call) :
    ∃ reply s', region.call env s call = some (reply,s') ∧ other.Kept s s' := by
  cases call with
  | read buffer index length offset =>
    obtain ⟨ret,filled,s',hread,hcard⟩ := read_ends env region buffer 0 index
      length offset s haddress.2.2
    simp only [SdStorage.call,hread,Option.bind_eq_bind,Option.bind_some]
    exact ⟨_,_,rfl,kept_of_card_eq hcard⟩
  | write buffer index length offset =>
    obtain ⟨ret,s',hwrite,hconfines⟩ := write_ends env region buffer 0 s
      haddress.1.1 haddress.2.2 (hspares.imp_right .inl)
    simp only [SdStorage.call,hwrite,Option.bind_eq_bind,Option.bind_some]
    exact ⟨_,_,rfl,hconfines.kept hapart⟩
  | clear index => exact ⟨_,_,rfl,clear_keeps env hspares s⟩

theorem sdCall_keeps {other : SdStorage} (hapart : region.Apart other) {ring : SdCircBuff}
    (hring : ring.Seated region) (s : SdState) (call : SdCall)
    (hstorage : ∀ request, call = .storage request →
      region.Addresses request ∧ region.Spares other request) :
    ∃ reply ring' s', SdCircBuff.call env (ring,s) call = some (reply,ring',s') ∧
      ring'.Seated region ∧ other.Kept s s' := by
  cases call with
  | storage request =>
    obtain ⟨haddress,hspares⟩ := hstorage request rfl
    obtain ⟨reply,s',hcall,hkept⟩ := storageCall_keeps env hapart s request haddress
      hspares
    rw [← hring.storage] at hcall
    simp only [SdCircBuff.call,hcall,Option.bind_eq_bind,Option.bind_some]
    exact ⟨_,_,_,rfl,hring,hkept⟩
  | put buffer length =>
    obtain ⟨ret,ring',s',hput,hring',hconfines⟩ := put_ends env hring buffer length s
    simp only [SdCircBuff.call,hput,Option.bind_eq_bind,Option.bind_some]
    exact ⟨_,_,_,rfl,hring',hconfines.kept hapart⟩
  | get stack buffer length =>
    obtain ⟨ret,filled,ring',s',hget,hring',hcard⟩ := get_ends env hring stack buffer
      length s
    simp only [SdCircBuff.call,hget,Option.bind_eq_bind,Option.bind_some]
    exact ⟨_,_,_,rfl,hring',kept_of_card_eq hcard⟩
  | probe =>
    obtain ⟨ret,ring',s',hprobe,hring',hcard⟩ := probe_ends env hring s
    simp only [SdCircBuff.call,hprobe,Option.bind_eq_bind,Option.bind_some]
    exact ⟨_,_,_,rfl,hring',kept_of_card_eq hcard⟩

/-- Two objects over disjoint regions of one card. In every state that the calls on the first
reach, from its construction on, the sectors of the second are as they were; a request past the
end of the region does what the request cut there does. -/
theorem sdRegion_isolated (env : SdEnv) (memory : SdStorage) {maxSectors iSectStart nSects : Int}
    (hcard : nSects < maxSectors) (hint : 0 ≤ nSects ∧ nSects * 512 < 2 ^ 31) (other : SdStorage)
    (hapart : (SdStorage.mk iSectStart nSects).Apart other) (s : SdState) :
    let region := SdStorage.new memory maxSectors iSectStart nSects
    (∀ calls : List StorageCall,
      (∀ call ∈ calls, region.Addresses call ∧ region.Spares other call) →
      ∃ replies s', Transition.run (region.call env) s calls = some (replies,s') ∧
        other.Kept s s') ∧
    (¬other.Has 0 → ∀ calls : List SdCall,
      (∀ call ∈ calls, ∀ request, call = .storage request →
        region.Addresses request ∧ region.Spares other request) →
      ∃ replies object, Transition.run (SdCircBuff.call env)
          (SdCircBuff.new env memory maxSectors iSectStart nSects s) calls =
            some (replies,object) ∧ other.Kept s object.2) ∧
    ∀ (buffer : Bytes) (index length offset : Int) (reached : SdState),
      region.room index offset < length →
      region.call env reached (.read buffer index length offset) =
          region.call env reached (.read buffer index (region.room index offset) offset) ∧
        (region.Spares other (.write buffer index length offset) →
          region.call env reached (.write buffer index length offset) =
            region.call env reached (.write buffer index (region.room index offset) offset)) := by
  have hnew : SdStorage.new memory maxSectors iSectStart nSects = ⟨iSectStart,nSects⟩ :=
    if_pos hcard
  simp only [hnew]
  refine ⟨?_,?_,?_⟩
  · intro calls hcalls
    let region : SdStorage := ⟨iSectStart,nSects⟩
    have hstep : ∀ (reached : SdState) (call : StorageCall), other.Kept s reached →
        (region.Addresses call ∧ region.Spares other call) →
        ∃ reply s', region.call env reached call = some (reply,s') ∧ other.Kept s s' := by
      intro reached call hkept hok
      obtain ⟨reply,s',hcall,hkept'⟩ := storageCall_keeps env hapart reached call hok.1 hok.2
      exact ⟨reply,s',hcall,hkept.trans hkept'⟩
    obtain ⟨replies,s',hrun,hkept⟩ := Transition.run_keeps hstep
      calls s (kept_of_card_eq rfl)
      (Transition.meets_of_forall_mem (fun call hmem _ => hcalls call hmem) s)
    exact ⟨replies,s',hrun,hkept⟩
  · intro hfirst calls hcalls
    have hseated : (SdCircBuff.new env memory maxSectors iSectStart nSects s).1.Seated
        ⟨iSectStart,nSects⟩ :=
      ⟨hnew,rfl,⟨by simp only [SdCircBuff.new]; omega,hint.2⟩,Int.le_refl 0,Int.le_refl 0⟩
    let region : SdStorage := ⟨iSectStart,nSects⟩
    have hstep : ∀ (object : SdCircBuff × SdState) (call : SdCall),
        object.1.Seated region ∧ other.Kept s object.2 →
        (∀ request, call = .storage request →
          region.Addresses request ∧ region.Spares other request) →
        ∃ reply object', SdCircBuff.call env object call = some (reply,object') ∧
          object'.1.Seated region ∧ other.Kept s object'.2 := by
      rintro ⟨ring,reached⟩ call ⟨hring,hkept⟩ hok
      obtain ⟨reply,ring',s',hcall,hring',hkept'⟩ := sdCall_keeps env hapart hring reached call hok
      exact ⟨reply,(ring',s'),hcall,hring',hkept.trans hkept'⟩
    obtain ⟨replies,object,hrun,-,hkept⟩ := Transition.run_keeps hstep
      calls _ ⟨hseated,clear_keeps env hfirst s⟩
      (Transition.meets_of_forall_mem (fun call hmem _ => hcalls call hmem) _)
    exact ⟨replies,object,hrun,hkept⟩
  · intro buffer index length offset reached hpast
    refine ⟨by simp only [SdStorage.call,read_cut hpast],fun hspares => ?_⟩
    have hzero : offset = 0 := hspares.resolve_right (by omega)
    subst hzero
    simp only [SdStorage.call,write_cut hpast]

/-- A card that takes every command, and a thread that is alone. -/
def faultlessEnv : SdEnv := ⟨fun _ => ⟨true,true,true⟩,fun _ => true⟩

/-- An erased card, before any call. -/
def erased : SdState := ⟨fun _ => 0xFF,.new,.new,0,[]⟩

/-- Two neighbouring regions of a hundred sectors. -/
theorem sdRegion_isolated_neighbours : ∃ replies s',
    Transition.run ((SdStorage.new ⟨0,0⟩ 1000 0 100).call faultlessEnv) erased
        [.write (fun _ => 7) 99 1024 0,.clear 3,.read (fun _ => 0) 99 1024 16] =
          some (replies,s') ∧ (SdStorage.mk 100 100).Kept erased s' := by
  refine (@sdRegion_isolated faultlessEnv ⟨0,0⟩ 1000 0 100 (by decide) (by decide) ⟨100,100⟩
    (apart_of_le (by decide)) erased).1 _ ?_
  intro call hmem
  simp only [List.mem_cons,List.not_mem_nil,or_false] at hmem
  rcases hmem with rfl | rfl | rfl <;> decide

/-- A `Write` behind an offset that is cut at the end of its region changes the next sector, and
the constructor of a circular buffer changes sector `0` of another region. -/
theorem sdRegion_spills :
    ((SdStorage.mk 0 1).Apart ⟨1,1⟩ ∧
      (SdStorage.mk 0 1).Addresses (.write (fun _ => 7) 0 1024 16) ∧
      ∃ reply s', (SdStorage.new ⟨0,0⟩ 1000 0 1).call faultlessEnv erased
          (.write (fun _ => 7) 0 1024 16) = some (reply,s') ∧
        ¬(SdStorage.mk 1 1).Kept erased s') ∧
    (SdStorage.mk 100 100).Apart ⟨0,100⟩ ∧
      ¬(SdStorage.mk 0 100).Kept erased
        (SdCircBuff.new faultlessEnv ⟨0,0⟩ 1000 100 100 erased).2 := by
  have hnext : ∃ reply s', (SdStorage.new ⟨0,0⟩ 1000 0 1).call faultlessEnv erased
      (.write (fun _ => 7) 0 1024 16) = some (reply,s') ∧ s'.card 512 = 7 := ⟨_,_,rfl,rfl⟩
  obtain ⟨reply,s',hcall,hbyte⟩ := hnext
  refine ⟨⟨apart_of_le (by decide),by decide,reply,s',hcall,fun hkept => ?_⟩,
    apart_of_le (by decide),fun hkept => ?_⟩
  · have hsame := hkept 512 (by decide)
    rw [hbyte] at hsame
    exact absurd hsame (by decide)
  · exact absurd (hkept 0 (by decide)) (by decide)

end Pyrn.Storage
