import Pyrn.Device.NewDynSensorsExact
import Pyrn.Storage.SdPutLocks
import Pyrn.Upload.StorageError
import Pyrn.Upload.UploadStream

/-!
# Lock balance

Every mutex of the program is recursive for its owner. A call is balanced when it has released a
mutex as often as it has acquired it. For each call that takes a mutex this is when it is.
-/

namespace Pyrn

open Pyrn.Storage Pyrn.Upload RecursiveMutex

/-- The calls on the card. The mutex of the card is balanced when the card refuses no command, the
storage mutex of `Read`, `Clear`, `Get` and `Probe` always. `Write` and `Put` balance the storage
mutex under conditions of their own. -/
structure SdLockBalance (env : SdEnv) : Prop where
  diskRead (block : Int) (s : SdState) :
    Balanced s.cardAccess (diskRead env block s).2.cardAccess ↔
      (s.obtainsCard env = true → (s.answer env).accepted = true)
  diskWrite (buffer : Bytes) (block : Int) (s : SdState) :
    Balanced s.cardAccess (diskWrite env buffer block s).2.cardAccess ↔
      (s.obtainsCard env = true → (s.answer env).accepted = true)
  clear (index : Int) (s : SdState) :
    let after := (SdStorage.clear env index s).2
    Balanced s.access after.access ∧
      (Balanced s.cardAccess after.cardAccess ↔ refusals after.trace = refusals s.trace)
  read {region : SdStorage} {buffer buffer' : Bytes} {start index length offset err : Int}
    {s s' : SdState}
    (h : region.read env buffer start index length offset s = some (err,buffer',s')) :
    Balanced s.access s'.access ∧
      (Balanced s.cardAccess s'.cardAccess ↔ refusals s'.trace = refusals s.trace)
  write {region : SdStorage} {buffer : Bytes} {start index length offset err : Int}
    {s s' : SdState} (hoffset : 0 ≤ offset ∧ offset < 512)
    (h : region.write env buffer start index length offset s = some (err,s')) :
    (Balanced s.access s'.access ↔
        (s.obtains env = true → s.Repays env (region.cut index length offset) offset)) ∧
      (Balanced s.cardAccess s'.cardAccess ↔ refusals s'.trace = refusals s.trace)
  get {ring ring' : SdCircBuff} {stack buffer buffer' : Bytes} {length ret : Int}
    {s s' : SdState} (h : ring.get env stack buffer length s = some (ret,buffer',ring',s')) :
    Balanced s.access s'.access ∧
      (Balanced s.cardAccess s'.cardAccess ↔ refusals s'.trace = refusals s.trace)
  probe {ring ring' : SdCircBuff} {ret : Int} {s s' : SdState}
    (h : ring.probe env s = some (ret,ring',s')) :
    Balanced s.access s'.access ∧
      (Balanced s.cardAccess s'.cardAccess ↔ refusals s'.trace = refusals s.trace)
  put {ring ring' : SdCircBuff} {buffer : Bytes} {length ret : Int} {s s' : SdState}
    (h : ring.put env buffer length s = some (ret,ring',s')) :
    (Balanced s.cardAccess s'.cardAccess ↔ refusals s'.trace = refusals s.trace) ∧
      (s.obtains env = false ∨ length < 0 ∨ length > 2048 → Balanced s.access s'.access) ∧
      (s.obtains env = true → 0 ≤ length → length ≤ 2048 →
        ¬toUnsigned (ring.current + length + sizeofInt) < toUnsigned ring.size →
          ¬Balanced s.access s'.access)
  putRecord {region : SdStorage} {ring ring' : SdCircBuff} {buffer : Bytes} {length ret : Int}
    {s s' : SdState} (hring : ring.Seated region)
    (hrange : 0 ≤ ring.pWrite ∧ ring.pWrite < ring.size)
    (hlength : (1 ≤ length ∧ length ≤ 2048) ∧ length + sizeofInt < ring.size)
    (hspace : toUnsigned (ring.current + length + sizeofInt) < toUnsigned ring.size)
    (h : ring.put env buffer length s = some (ret,ring',s')) (hobtains : s.obtains env = true) :
    ((∀ block ∈ recordBlocks ring.size ring.pWrite length, OneSector block) →
      (Balanced s.access s'.access ↔ failedWrites s'.trace = failedWrites s.trace)) ∧
    ((∃ block ∈ recordBlocks ring.size ring.pWrite length, ¬OneSector block) →
      failures s'.trace = failures s.trace →
        (Balanced s.access s'.access ↔ s.access.depth = 0))
  putEmpty {region : SdStorage} {ring ring' : SdCircBuff} {buffer : Bytes} {ret : Int}
    {s s' : SdState} (hring : ring.Seated region)
    (hrange : 0 ≤ ring.pWrite ∧ ring.pWrite < ring.size) (hsize : sizeofInt < ring.size)
    (hspace : toUnsigned (ring.current + sizeofInt) < toUnsigned ring.size)
    (h : ring.put env buffer 0 s = some (ret,ring',s')) (hobtains : s.obtains env = true)
    (hsame : failures s'.trace = failures s.trace) :
    Balanced s.access s'.access ↔
      ∃ block ∈ splitBlock ring.size ring.pWrite sizeofInt, ¬OneSector block

theorem sdLockBalance_of (env : SdEnv) : SdLockBalance env where
  diskRead block s := (disk_balanced_iff env (fun _ => 0) block s).1
  diskWrite buffer block s := (disk_balanced_iff env buffer block s).2
  clear index s :=
    have hclear := clear_charged index s
    ⟨balanced_iff.mpr hclear.2,hclear.1.balanced_iff⟩
  read h := ⟨balanced_iff.mpr (read_charged h).2,(read_charged h).1.balanced_iff⟩
  write hoffset h := ⟨write_balanced_iff hoffset h,(write_charged h).1.balanced_iff⟩
  get h := ⟨balanced_iff.mpr (get_steady h).2,(get_steady h).1.balanced_iff⟩
  probe h := ⟨balanced_iff.mpr (probe_steady h).2,(probe_steady h).1.balanced_iff⟩
  put h := ⟨(put_charged h).balanced_iff,put_refused_balanced h,fun hobtains hlow hhigh =>
    put_full_unbalanced h hobtains ⟨hlow,hhigh⟩⟩
  putRecord hring hrange hlength hspace h hobtains :=
    put_balanced_iff hring hrange hlength hspace h hobtains
  putEmpty hring hrange hsize hspace h hobtains hsame :=
    put_empty_balanced_iff hring hrange hspace hsize h hobtains hsame

/-- A storage that holds results is readable. -/
theorem readable_of_ready {st : ComHandler} {pending : List Result} (hst : Ready st pending) :
    Readable st.dataStorage := by
  let quiet : Exchange := ⟨0,0,0,List.replicate xferBuffSz 0,none,List.length_replicate⟩
  obtain ⟨sent,st',hserve,-⟩ := doServerRequest_serves hst fun _ => quiet
  exact (doServerRequest_readable serveFuel _ st (hserve serveFuel (Nat.le_refl _))).1 rfl

/-- A card that refuses every command. -/
def refusingEnv : SdEnv := ⟨fun _ => ⟨true,false,false⟩,fun _ => true⟩

end Pyrn
