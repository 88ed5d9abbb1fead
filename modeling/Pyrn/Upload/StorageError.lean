import Mathlib.Logic.Relation
import Pyrn.Framework.RecursiveMutex
import Pyrn.Upload.ComHandler

/-!
# The storage error of a server request

`DoServerRequest` returns from the middle when the storage reports a record of negative size.
Whether it does so is a property of the storage that the request finds: the reads of a request
form one chain of storage states.
-/

namespace Pyrn.Upload

open Pyrn.Storage

variable {storage next : RamCircBuff}

/-- One read of the storage by a request. -/
def Reads (storage next : RamCircBuff) : Prop :=
  ∃ r buffer l filled, storage.probe = some r ∧ 0 < r ∧
    storage.get buffer 2096 = some (l,filled,next)

/-- No record on the way through the storage has a negative size. -/
def Readable (storage : RamCircBuff) : Prop :=
  ∀ reached, Relation.ReflTransGen Reads storage reached → ∀ r, reached.probe = some r → 0 ≤ r

/-- `Get` finds the size that `Probe` reports. -/
theorem getHeader_of_probe {r : Int} (hprobe : storage.probe = some r) (hpos : 0 < r) :
    storage.currSz ≠ 0 ∧ ∃ pRead, storage.getHeader = some (r,pRead) := by
  rw [RamCircBuff.probe] at hprobe
  split at hprobe
  · rename_i hcurrent
    refine ⟨hcurrent,?_⟩
    rw [RamCircBuff.getHeader]
    split at hprobe
    · rename_i hwhole
      obtain ⟨header,hheader,hr⟩ := Option.bind_eq_some_iff.mp hprobe
      cases hr
      rw [if_pos hwhole,hheader]
      exact ⟨_,rfl⟩
    · rename_i hwhole
      obtain ⟨low,hlow,hrest⟩ := Option.bind_eq_some_iff.mp hprobe
      obtain ⟨high,hhigh,hr⟩ := Option.bind_eq_some_iff.mp hrest
      cases hr
      rw [if_neg hwhole]
      simp only [hlow,hhigh,Option.bind_eq_bind,Option.bind_some]
      exact ⟨_,rfl⟩
  · cases hprobe
    omega

/-- What `Get` returns and leaves in the storage does not depend on the caller's buffer. -/
theorem get_determined {r pRead l length : Int} {buffer filled : List UInt8}
    (hcurrent : storage.currSz ≠ 0) (hheader : storage.getHeader = some (r,pRead))
    (hget : storage.get buffer length = some (l,filled,next)) :
    l = (if r ≤ length then r else length) ∧
      next = { storage with
        currSz := storage.currSz - sizeofInt - l
        pRead := if pRead + r ≤ storage.bSz then rewind storage.bSz (pRead + l)
          else r - (storage.bSz - pRead) } := by
  rw [RamCircBuff.get,if_pos hcurrent,hheader] at hget
  simp only [Option.bind_eq_bind,Option.bind_some] at hget
  split at hget
  · rename_i hwhole
    obtain ⟨data,hdata,hget⟩ := Option.bind_eq_some_iff.mp hget
    obtain ⟨filled',hfilled,hget⟩ := Option.bind_eq_some_iff.mp hget
    cases hget
    exact ⟨rfl,by rw [if_pos hwhole]⟩
  · rename_i hsplit
    obtain ⟨low,hlow,hget⟩ := Option.bind_eq_some_iff.mp hget
    obtain ⟨first,hfirst,hget⟩ := Option.bind_eq_some_iff.mp hget
    obtain ⟨high,hhigh,hget⟩ := Option.bind_eq_some_iff.mp hget
    obtain ⟨filled',hfilled,hget⟩ := Option.bind_eq_some_iff.mp hget
    cases hget
    exact ⟨rfl,by rw [if_neg hsplit]⟩

/-- The reads of a request form a chain. -/
theorem reads_unique {next' : RamCircBuff} (h : Reads storage next) (h' : Reads storage next') :
    next = next' := by
  obtain ⟨r,buffer,l,filled,hprobe,hpos,hget⟩ := h
  obtain ⟨r',buffer',l',filled',hprobe',-,hget'⟩ := h'
  obtain ⟨hcurrent,pRead,hheader⟩ := getHeader_of_probe hprobe hpos
  obtain ⟨rfl,hnext⟩ := get_determined hcurrent hheader hget
  obtain ⟨rfl,hnext'⟩ := get_determined hcurrent hheader hget'
  rw [hnext,hnext']

/-- Behind a read the same records remain. -/
theorem readable_iff_of_reads (h : Reads storage next) : Readable storage ↔ Readable next := by
  constructor
  · intro hreadable reached hreach
    exact hreadable reached (hreach.head h)
  · intro hreadable reached hreach r hprobe
    rcases hreach.cases_head with rfl | ⟨first,hfirst,hrest⟩
    · obtain ⟨r',buffer,l,filled,hprobe',hpos,-⟩ := h
      rw [hprobe] at hprobe'
      cases hprobe'
      omega
    · rw [← reads_unique h hfirst] at hrest
      exact hreadable reached hrest r hprobe

/-- How the loop over the storage ends. -/
theorem drain_readable (fuel : Nat) (storage : RamCircBuff) (txBuff : List UInt8) (currLen : Nat)
    {ended : DrainEnd} {storage' : RamCircBuff} {txBuff' : List UInt8} {currLen' : Nat}
    (h : ComHandler.drain fuel storage txBuff currLen = some (ended,storage',txBuff',currLen')) :
    (ended = .storageError → ¬Readable storage) ∧ (ended = .noMoreData → Readable storage) ∧
      (ended = .noMoreSpace → (Readable storage ↔ Readable storage')) := by
  induction fuel generalizing storage txBuff currLen with
  | zero =>
    cases h
    exact ⟨nofun,nofun,nofun⟩
  | succ fuel ih =>
    obtain ⟨r,hprobe,h⟩ := Option.bind_eq_some_iff.mp h
    simp only at h
    split at h
    · rename_i hnegative
      cases h
      refine ⟨fun _ hreadable => ?_,nofun,nofun⟩
      exact absurd (hreadable _ .refl r hprobe) (by omega)
    split at h
    · rename_i hzero
      cases h
      refine ⟨nofun,fun _ => ?_,nofun⟩
      intro reached hreach r' hprobe'
      rcases hreach.cases_head with rfl | ⟨first,⟨r₁,-,-,-,hprobe₁,hpos,-⟩,-⟩
      · rw [hprobe] at hprobe'
        cases hprobe'
        omega
      · rw [hprobe] at hprobe₁
        cases hprobe₁
        omega
    split at h
    · cases h
      exact ⟨nofun,nofun,fun _ => Iff.rfl⟩
    · rename_i hnonneg hnonzero hroom
      obtain ⟨⟨l,rest,storage₁⟩,hget,h⟩ := Option.bind_eq_some_iff.mp h
      have hpos : 0 < r := by omega
      have hreads : Reads storage storage₁ := ⟨r,_,l,rest,hprobe,hpos,hget⟩
      obtain ⟨hcurrent,pRead,hheader⟩ := getHeader_of_probe hprobe hpos
      obtain ⟨hl,-⟩ := get_determined hcurrent hheader hget
      simp only at h
      rw [if_neg (by split at hl <;> omega)] at h
      obtain ⟨herror,hdata,hspace⟩ := ih _ _ _ h
      have hiff := readable_iff_of_reads hreads
      exact ⟨fun hended hreadable => herror hended (hiff.mp hreadable),
        fun hended => hiff.mpr (hdata hended),fun hended => hiff.trans (hspace hended)⟩

theorem post_dataStorage (st : ComHandler) (exchange : Exchange) (currLen : Nat) :
    (st.post exchange currLen).2.dataStorage = st.dataStorage := by
  unfold ComHandler.post
  split
  · cases exchange.idConfig <;> rfl
  · rfl

/-- A request that returns has been served exactly when the storage it found was readable. -/
theorem doServerRequest_readable (fuel : Nat) (exchanges : Nat → Exchange) (st : ComHandler)
    {ended : ServeEnd} {posts : List Post} {st' : ComHandler}
    (h : ComHandler.doServerRequest fuel exchanges st = some (ended,posts,st')) :
    (ended = .served → Readable st.dataStorage) ∧
      (ended = .storageError → ¬Readable st.dataStorage) := by
  induction fuel generalizing exchanges st posts with
  | zero =>
    cases h
    exact ⟨nofun,nofun⟩
  | succ fuel ih =>
    obtain ⟨filled,hfill,h⟩ := Option.bind_eq_some_iff.mp h
    have hstorage : filled.dataStorage = st.dataStorage := by
      obtain ⟨txBuff,htxBuff,hfilled⟩ := Option.bind_eq_some_iff.mp hfill
      cases hfilled
      rfl
    rw [← hstorage]
    obtain ⟨⟨drained,storage,txBuff',currLen⟩,hdrain,h⟩ := Option.bind_eq_some_iff.mp h
    obtain ⟨herror,hdata,hspace⟩ := drain_readable fuel _ _ _ hdrain
    cases drained with
    | outOfFuel =>
      cases h
      exact ⟨nofun,nofun⟩
    | storageError =>
      cases h
      exact ⟨nofun,fun _ => herror rfl⟩
    | noMoreData =>
      cases h
      exact ⟨fun _ => hdata rfl,nofun⟩
    | noMoreSpace =>
      obtain ⟨⟨ended',posts',st''⟩,hrest,h⟩ := Option.bind_eq_some_iff.mp h
      cases h
      have hiff := hspace rfl
      obtain ⟨hserved,herror'⟩ := ih _ _ hrest
      have hkept := congrArg Readable (post_dataStorage
        { filled with dataStorage := storage, txBuff := txBuff' } (exchanges 0) currLen)
      exact ⟨fun hended => hiff.mpr (hkept.mp (hserved hended)),
        fun hended hreadable => herror' hended (hkept.mpr (hiff.mp hreadable))⟩

/-- `DoServerRequest` with `BuffMtx`. The exits on a storage error are in front of its `unlock`. -/
def ComHandler.doServerRequestLocked (fuel : Nat) (exchanges : Nat → Exchange) (st : ComHandler)
    (buffMtx : RecursiveMutex) : Option (ServeEnd × ComHandler × RecursiveMutex) := do
  let (ended,_,st) ← st.doServerRequest fuel exchanges
  return (ended,st,if ended = .served then buffMtx.acquire.unlock else buffMtx.acquire)

/-- A request that returns gives `BuffMtx` back exactly when the storage it found was readable. -/
theorem buffMtx_balanced_iff {fuel : Nat} {exchanges : Nat → Exchange} {st st' : ComHandler}
    {buffMtx buffMtx' : RecursiveMutex} {ended : ServeEnd}
    (h : st.doServerRequestLocked fuel exchanges buffMtx = some (ended,st',buffMtx'))
    (hreturns : ended ≠ .outOfFuel) :
    RecursiveMutex.Balanced buffMtx buffMtx' ↔ Readable st.dataStorage := by
  obtain ⟨⟨ended',posts,st''⟩,hserve,h⟩ := Option.bind_eq_some_iff.mp h
  cases h
  obtain ⟨hserved,herror⟩ := doServerRequest_readable fuel exchanges st hserve
  rw [RecursiveMutex.balanced_iff]
  cases ended with
  | served =>
    rw [if_pos rfl,RecursiveMutex.depth_unlock,RecursiveMutex.depth_acquire]
    exact iff_of_true rfl (hserved rfl)
  | storageError =>
    rw [if_neg nofun,RecursiveMutex.depth_acquire]
    exact iff_of_false (by omega) (herror rfl)
  | outOfFuel => exact absurd rfl hreturns

end Pyrn.Upload
