import Mathlib.Tactic.SplitIfs
import Pyrn.Storage.SdCard

/-!
# What the storage requests move

On a card that never fails `Read` copies the requested bytes out of the region, and `Write` copies
them in and clears what is behind them in their last sector, unless all of them go behind an
offset in one sector.
-/

namespace Pyrn.Storage

open BlockCopy

/-- The bytes that a faultless `Write` of `n` bytes clears behind its last byte. -/
def zeroFill (offset n : Int) : Int :=
  if offset ≠ 0 ∧ offset + n ≤ 512 then 0 else -(offset + n) % 512

/-- A card with `n` bytes of a buffer at `p` and `fill` zeros behind them. -/
def written (card : Bytes) (p : Int) (buffer : Bytes) (start n fill : Int) : Bytes :=
  copy (copy card p buffer start n) (p + n) (fun _ => 0) 0 fill

theorem written_inside {card buffer : Bytes} {p start n fill x : Int} (hlow : p ≤ x)
    (hhigh : x < p + n) : written card p buffer start n fill x = buffer (start + (x - p)) := by
  rw [written,copy_outside (.inl hhigh),copy_inside hlow hhigh]

theorem written_outside {card buffer : Bytes} {p start n fill x : Int}
    (h : x < p ∨ p + n + fill ≤ x) (hn : 0 ≤ n) (hfill : 0 ≤ fill) :
    written card p buffer start n fill x = card x := by
  rw [written,copy_outside (by omega),copy_outside (by omega)]

theorem written_of_fill_eq_zero {card buffer : Bytes} {p start n fill : Int} (h : fill = 0) :
    written card p buffer start n fill = copy card p buffer start n := by
  rw [written,copy_of_nonpos (by omega)]

theorem written_of_copied {card buffer : Bytes} {p start m n fill : Int} (hm : 0 ≤ m)
    (hn : 0 ≤ n) : written (copy card p buffer start m) (p + m) buffer (start + m) n fill =
      written card p buffer start (m + n) fill := by
  rw [written,written,copy_copy hm hn,Int.add_assoc p m n]

theorem zeroFill_nonneg (offset n : Int) : 0 ≤ zeroFill offset n := by
  unfold zeroFill
  split <;> omega

/-- The sector write behind a read: only the new bytes are new. -/
theorem copy_sector {card buffer : Bytes} {block offset start n : Int} (hoffset : 0 ≤ offset)
    (hfit : offset + n ≤ 512) :
    copy card (block * 512) (copy (sector card block) offset buffer start n) 0 512 =
      copy card (block * 512 + offset) buffer start n := by
  funext x
  by_cases hsector : block * 512 ≤ x ∧ x < block * 512 + 512
  · rw [copy_inside hsector.1 hsector.2]
    by_cases hbytes : block * 512 + offset ≤ x ∧ x < block * 512 + offset + n
    · rw [copy_inside (by omega) (by omega),copy_inside hbytes.1 hbytes.2]
      congr 1
      omega
    · rw [copy_outside (by omega),copy_outside (by omega),sector,
        copy_inside (by omega) (by omega)]
      congr 1
      omega
  · rw [copy_outside (by omega),copy_outside (by omega)]

/-- The sector write over a cleared buffer: zeros behind the new bytes. -/
theorem copy_cleared {card buffer : Bytes} {p start n : Int} (hn : 0 ≤ n) (hfit : n ≤ 512) :
    copy card p (copy (fun _ => 0) 0 buffer start n) 0 512 =
      written card p buffer start n (512 - n) := by
  funext x
  by_cases hbytes : p ≤ x ∧ x < p + n
  · rw [written_inside hbytes.1 hbytes.2,copy_inside (by omega) (by omega),
      copy_inside (by omega) (by omega)]
    congr 1
    omega
  · rw [written]
    by_cases hzeros : p + n ≤ x ∧ x < p + 512
    · rw [copy_inside (d := p + n) (by omega) (by omega),copy_inside (by omega) (by omega),
        copy_outside (by omega)]
    · rw [copy_outside (d := p + n) (by omega),copy_outside (by omega),copy_outside (by omega)]

/-- Reading out of the sector in `bufftmp` is reading off the card. -/
theorem copy_from_sector {buffer card : Bytes} {d block offset n : Int} (hoffset : 0 ≤ offset)
    (hfit : offset + n ≤ 512) :
    copy buffer d (sector card block) offset n = copy buffer d card (block * 512 + offset) n := by
  funext x
  by_cases hbytes : d ≤ x ∧ x < d + n
  · rw [copy_inside hbytes.1 hbytes.2,copy_inside hbytes.1 hbytes.2,sector,
      copy_inside (by omega) (by omega)]
    congr 1
    omega
  · rw [copy_outside (by omega),copy_outside (by omega)]

/-- A turn that finds bytes left moves some of them, up to the end of its sector or all. -/
theorem nCpy_spec {length i offset : Int} (hmore : i < length)
    (hoffset : 0 ≤ offset ∧ offset < 512) (hfirst : offset = 0 ∨ i = 0) :
    0 < nCpy length i offset ∧ nCpy length i offset ≤ length - i ∧
      (nCpy length i offset = length - i ∧ offset + (length - i) ≤ 512 ∨
        offset + nCpy length i offset = 512) := by
  unfold nCpy
  split_ifs <;> omega

/-- One turn of `Write` and the turns behind it are one write. -/
theorem written_written {card buffer : Bytes} {block offset start n rest : Int} (hn : 0 < n)
    (hrest : 0 ≤ rest) (hcases : rest = 0 ∧ offset + n ≤ 512 ∨ offset + n = 512) :
    written (written card (block * 512 + offset) buffer start n (if offset ≠ 0 then 0 else 512 - n))
        ((block + 1) * 512) buffer (start + n) rest (zeroFill 0 rest) =
      written card (block * 512 + offset) buffer start (n + rest) (zeroFill offset (n + rest)) := by
  rcases hcases with ⟨rfl,hfit⟩ | hsector
  · have hfill : (if offset ≠ 0 then 0 else 512 - n) = zeroFill offset (n + 0) := by
      unfold zeroFill
      split_ifs <;> omega
    rw [← hfill,Int.add_zero]
    generalize (if offset ≠ 0 then 0 else 512 - n) = fill
    rw [written,copy_of_nonpos (Int.le_refl 0),copy_of_nonpos (by decide)]
  · have hfill : (if offset ≠ 0 then 0 else 512 - n) = 0 := by
      split_ifs <;> omega
    have hnext : (block + 1) * 512 = block * 512 + offset + n := by omega
    have hall : zeroFill 0 rest = zeroFill offset (n + rest) := by
      unfold zeroFill
      split_ifs <;> omega
    rw [written_of_fill_eq_zero hfill,hnext,written_of_copied (Int.le_of_lt hn) hrest,hall]

section Faultless

variable {env : SdEnv} (henv : env.Faultless)
include henv

theorem obtains_of_faultless (s : SdState) : s.obtains env = true := by
  rw [SdState.obtains,henv.free]
  exact RecursiveMutex.obtains_true _

theorem obtainsCard_of_faultless (s : SdState) : s.obtainsCard env = true := by
  rw [SdState.obtainsCard,SdState.answer,henv.disk]
  exact RecursiveMutex.obtains_true _

theorem diskRead_of_faultless (block : Int) (s : SdState) :
    ∃ s', diskRead env block s = (some (sector s.card block),s') ∧ s'.card = s.card := by
  rw [diskRead,if_pos (obtainsCard_of_faultless henv s),SdState.answer,henv.disk,if_pos rfl]
  exact ⟨_,rfl,rfl⟩

theorem diskWrite_of_faultless (buffer : Bytes) (block : Int) (s : SdState) :
    ∃ s', diskWrite env buffer block s = (0,s') ∧
      s'.card = copy s.card (block * 512) buffer 0 512 := by
  rw [diskWrite,if_pos (obtainsCard_of_faultless henv s),SdState.answer,henv.disk,if_pos rfl]
  exact ⟨_,rfl,rfl⟩

omit henv in
theorem next_err (v : LoopVars) (length : Int) :
    (if (v.next length).i < length then 0 else (v.next length).err) = 0 := ite_self 0

/-- What the sector holds that one turn of `Write` sends to the card. -/
theorem writeBase_of_faultless {v : LoopVars} (hfirst : v.offset = 0 ∨ v.i = 0)
    (hoffset : 0 ≤ v.offset) (s : SdState) :
    ∃ base s', writeBase env v s = (some base,s') ∧ s'.card = s.card ∧
      ∀ buffer start n, 0 ≤ n → v.offset + n ≤ 512 →
        copy s.card (v.currSectorIndex * 512) (copy base v.offset buffer start n) 0 512 =
          written s.card (v.currSectorIndex * 512 + v.offset) buffer start n
            (if v.offset ≠ 0 then 0 else 512 - n) := by
  by_cases hzero : v.offset = 0
  · refine ⟨_,s,if_neg (by omega),rfl,fun buffer start n hn hfit => ?_⟩
    rw [if_neg (by omega),hzero,Int.add_zero,copy_cleared hn (by omega)]
  · obtain ⟨s₁,hread,hcard⟩ := diskRead_of_faultless henv v.currSectorIndex s
    refine ⟨_,s₁,(if_pos ⟨hzero,by omega⟩).trans hread,hcard,fun buffer start n hn hfit => ?_⟩
    rw [if_pos hzero,written_of_fill_eq_zero rfl,copy_sector hoffset hfit]

/-- The loop of `Read` on a faultless card, from any turn on. -/
theorem readLoop_of_faultless (start length : Int) (fuel : Nat) (v : LoopVars) (buffer : Bytes)
    (s : SdState) (hfuel : length - v.i < fuel) (hlength : v.i ≤ length)
    (hoffset : 0 ≤ v.offset ∧ v.offset < 512) (hfirst : v.offset = 0 ∨ v.i = 0) :
    ∃ s', readLoop env start length fuel v buffer s =
        some (if v.i < length then 0 else v.err,
          copy buffer (start + v.i) s.card (v.currSectorIndex * 512 + v.offset) (length - v.i),s') ∧
      s'.card = s.card := by
  induction fuel generalizing v buffer s with
  | zero => omega
  | succ fuel ih =>
    rw [readLoop]
    by_cases hmore : v.i < length
    · obtain ⟨s₁,hread,hcard⟩ := diskRead_of_faultless henv v.currSectorIndex s
      obtain ⟨hpos,hle,hcases⟩ := nCpy_spec hmore hoffset hfirst
      obtain ⟨s₂,hrest,hcard₂⟩ := ih (v.next length)
        (copy buffer (start + v.i) (sector s.card v.currSectorIndex) v.offset
          (nCpy length v.i v.offset)) s₁
        (by simp only [LoopVars.next]; omega) (by simp only [LoopVars.next]; omega)
        (by simp only [LoopVars.next]; omega) (.inl rfl)
      refine ⟨s₂,?_,hcard₂.trans hcard⟩
      rw [if_pos hmore,if_pos hmore,hread]
      simp only [hrest,hcard,next_err]
      rw [copy_from_sector hoffset.1 (by omega)]
      simp only [LoopVars.next]
      clear hrest
      generalize nCpy length v.i v.offset = n at hpos hle hcases
      rcases hcases with ⟨rfl,-⟩ | hsector
      · rw [copy_of_nonpos (d := start + (v.i + (length - v.i))) (by omega)]
      · have hnext : (v.currSectorIndex + 1) * 512 + 0 =
            v.currSectorIndex * 512 + v.offset + n := by omega
        have hall : length - v.i = n + (length - (v.i + n)) := by omega
        rw [hnext,← Int.add_assoc,copy_copy (Int.le_of_lt hpos) (by omega),← hall]
    · refine ⟨s.unlock,?_,rfl⟩
      rw [if_neg hmore,if_neg hmore,copy_of_nonpos (by omega)]

/-- The loop of `Write` on a faultless card, from any turn on. -/
theorem writeLoop_of_faultless (buffer : Bytes) (start length : Int) (fuel : Nat) (v : LoopVars)
    (s : SdState) (hfuel : length - v.i < fuel) (hlength : v.i ≤ length)
    (hoffset : 0 ≤ v.offset ∧ v.offset < 512) (hfirst : v.offset = 0 ∨ v.i = 0) :
    ∃ s', writeLoop env buffer start length fuel v s =
        some (if v.i < length then 0 else v.err,s') ∧
      s'.card = written s.card (v.currSectorIndex * 512 + v.offset) buffer (start + v.i)
        (length - v.i) (zeroFill v.offset (length - v.i)) := by
  induction fuel generalizing v s with
  | zero => omega
  | succ fuel ih =>
    rw [writeLoop]
    by_cases hmore : v.i < length
    · obtain ⟨hpos,hle,hcases⟩ := nCpy_spec hmore hoffset hfirst
      obtain ⟨base,s₁,hbase,hcard₁,hturn⟩ := writeBase_of_faultless henv hfirst hoffset.1 s
      obtain ⟨s₂,hwrite,hcard₂⟩ := diskWrite_of_faultless henv
        (copy base v.offset buffer (start + v.i) (nCpy length v.i v.offset)) v.currSectorIndex s₁
      obtain ⟨s₃,hloop,hcard₃⟩ := ih (v.next length) s₂.unlock
        (by simp only [LoopVars.next]; omega) (by simp only [LoopVars.next]; omega)
        (by simp only [LoopVars.next]; omega) (.inl rfl)
      refine ⟨s₃,?_,?_⟩
      · rw [if_pos hmore,if_pos hmore,hbase]
        simp only [hwrite]
        rw [if_neg (by decide),hloop,next_err]
      · have hall : length - v.i = nCpy length v.i v.offset +
            (length - (v.i + nCpy length v.i v.offset)) := by omega
        rw [hcard₃,SdState.unlock]
        simp only [LoopVars.next,Int.add_zero]
        rw [hcard₂,hcard₁,hturn buffer _ _ (Int.le_of_lt hpos) (by omega),← Int.add_assoc,
          written_written hpos (by omega) (by omega),← hall]
    · refine ⟨s,?_,?_⟩
      · rw [if_neg hmore,if_neg hmore]
      · have hzero : length - v.i = 0 := by omega
        have hfill : zeroFill v.offset 0 = 0 := by
          unfold zeroFill
          split_ifs <;> omega
        rw [hzero,hfill,written_of_fill_eq_zero rfl,copy_of_nonpos (Int.le_refl 0)]

/-- A `Read` inside the region on a faultless card. -/
theorem read_of_faultless {region : SdStorage} {index length offset : Int} (buffer : Bytes)
    (start : Int) (s : SdState) (hoffset : 0 ≤ offset ∧ offset < 512) (hpos : 0 < length)
    (hfit : length ≤ region.room index offset) :
    ∃ s', region.read env buffer start index length offset s = some (0,
        copy buffer start s.card ((region.iSectorStart + index) * 512 + offset) length,s') ∧
      s'.card = s.card := by
  obtain ⟨s',hloop,hcard⟩ := readLoop_of_faultless henv start length (turns length)
    (region.begin index offset) buffer (s.trylock env)
    (by simp only [SdStorage.begin,turns]; omega) (by simp only [SdStorage.begin]; omega)
    hoffset (.inr rfl)
  refine ⟨s',?_,hcard⟩
  rw [SdStorage.read,if_pos (obtains_of_faultless henv s)]
  simp only [if_neg (Int.not_lt.mpr hfit)]
  rw [hloop,if_pos (show (region.begin index offset).i < length from hpos)]
  simp only [SdStorage.begin,Int.add_zero,Int.sub_zero]
  rfl

/-- A `Write` inside the region on a faultless card. -/
theorem write_of_faultless {region : SdStorage} {index length offset : Int}
    (buffer : Bytes) (start : Int) (s : SdState) (hoffset : 0 ≤ offset ∧ offset < 512)
    (hpos : 0 < length) (hfit : length ≤ region.room index offset) :
    ∃ s', region.write env buffer start index length offset s = some (0,s') ∧
      s'.card = written s.card ((region.iSectorStart + index) * 512 + offset) buffer start length
        (zeroFill offset length) := by
  obtain ⟨s',hloop,hcard⟩ := writeLoop_of_faultless henv buffer start length
    (turns length) (region.begin index offset) (s.trylock env)
    (by simp only [SdStorage.begin,turns]; omega) (by simp only [SdStorage.begin]; omega)
    hoffset (.inr rfl)
  refine ⟨s',?_,?_⟩
  · rw [SdStorage.write,if_pos (obtains_of_faultless henv s)]
    simp only [if_neg (Int.not_lt.mpr hfit)]
    rw [hloop,if_pos (show (region.begin index offset).i < length from hpos)]
  · rw [hcard]
    simp only [SdStorage.begin,Int.add_zero,Int.sub_zero]
    rfl

/-- A `Write` behind an offset that reaches past the end of the region is cut without the
offset, and so ends as many bytes behind the region. -/
theorem write_overruns {region : SdStorage} {index length offset : Int} (buffer : Bytes)
    (start : Int) (s : SdState) (hindex : index < region.nSectors)
    (hoffset : 0 ≤ offset ∧ offset < 512) (hpast : region.room index offset < length) :
    ∃ s', region.write env buffer start index length offset s = some (0,s') ∧
      s'.card = written s.card ((region.iSectorStart + index) * 512 + offset) buffer start
        ((region.nSectors - index) * 512) (zeroFill offset ((region.nSectors - index) * 512)) := by
  have hpos : 0 < (region.nSectors - index) * 512 := by omega
  obtain ⟨s',hloop,hcard⟩ := writeLoop_of_faultless henv buffer start
    ((region.nSectors - index) * 512) (turns ((region.nSectors - index) * 512))
    (region.begin index offset) (s.trylock env)
    (by simp only [SdStorage.begin,turns]; omega) (by simp only [SdStorage.begin]; omega)
    hoffset (.inr rfl)
  refine ⟨s',?_,?_⟩
  · rw [SdStorage.write,if_pos (obtains_of_faultless henv s)]
    simp only [if_pos hpast]
    rw [hloop,if_pos (show (region.begin index offset).i < _ from hpos)]
  · rw [hcard]
    simp only [SdStorage.begin,Int.add_zero,Int.sub_zero]
    rfl

end Faultless

/-- A `Read` that reaches past the end of the region is the one cut there. -/
theorem read_cut {env : SdEnv} {region : SdStorage} {index length offset : Int}
    (h : region.room index offset < length) (buffer : Bytes) (start : Int) (s : SdState) :
    region.read env buffer start index length offset s =
      region.read env buffer start index (region.room index offset) offset s := by
  simp only [SdStorage.read,if_pos h,Int.lt_irrefl,if_false]

/-- From the beginning of a sector, a `Write` past the end of the region is the one cut there. -/
theorem write_cut {env : SdEnv} {region : SdStorage} {index length : Int}
    (h : region.room index 0 < length) (buffer : Bytes) (start : Int) (s : SdState) :
    region.write env buffer start index length 0 s =
      region.write env buffer start index (region.room index 0) 0 s := by
  have hroom : (region.nSectors - index) * 512 = region.room index 0 := by
    simp only [SdStorage.room,Int.sub_zero]
  simp only [SdStorage.write,if_pos h,Int.lt_irrefl,if_false,hroom]

end Pyrn.Storage
