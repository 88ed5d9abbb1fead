import Pyrn.Storage.SdBlocks
import Pyrn.Storage.SdExact
import Pyrn.Storage.SdFifo

/-!
# What a failing `Put` or `Get` leaves behind

A call that fails in front of the change of its cursor leaves the queue as it was: what it may
have written lies in free bytes. A call that fails later does not.
-/

namespace Pyrn.Storage

open BlockCopy MemoryRing

/-- The card has kept the data of every sector write between two states. The number of a command
is the number of older ones. -/
def DataKept (env : SdEnv) (before after : SdState) : Prop :=
  ∀ newer command older, after.trace = newer ++ command :: older →
    before.trace.length ≤ older.length → command.write = true →
      (env.disk older.length).stored = true

/-- No block write of a `Put` returns -1, and the card keeps the data of all of them. -/
def SdCircBuff.Writes (env : SdEnv) (ring : SdCircBuff) (buffer : Bytes) (length : Int)
    (s : SdState) : Prop :=
  ∃ s', ring.writeBlocks env (ring.putWrites buffer length) s = some (true,s') ∧ DataKept env s s'

/-- The cursors are where they were, and so is every record that was stored; the next `Get`
returns the oldest one. -/
structure Undisturbed (region : SdStorage) (ring : SdCircBuff) (s : SdState) (ring' : SdCircBuff)
    (s' : SdState) : Prop where
  pRead : ring'.pRead = ring.pRead
  pWrite : ring'.pWrite = ring.pWrite
  current : ring'.current = ring.current
  queue : ∀ queue, Laid region ring s queue → Laid region ring' s' queue
  oldest : ∀ record rest r w, Laid region ring s ⟨record :: rest,r,w⟩ →
    KeepsPlace ring.size r record.length → ∀ env : SdEnv, env.Faultless →
    ∀ (stack buffer : Bytes) (length : Int), record.length ≤ length →
      ∃ ring₁ s₁, ring'.get env stack buffer length s' =
        some ((record.length : Int),deliver record buffer,ring₁,s₁)

/-- A `Put` that has the mutex and does not succeed returns -1 and disturbs nothing, and one that
returns the length of an accepted record has written it. -/
def PutAtomic (env : SdEnv) (region : SdStorage) (ring : SdCircBuff) (buffer : Bytes)
    (length : Int) (s : SdState) : Prop :=
  ∃ ret ring' s', ring.put env buffer length s = some (ret,ring',s') ∧
    (s.obtains env = true →
      (¬(ring.Accepts length ∧ ring.Writes env buffer length (s.trylock env)) →
        ret = -1 ∧ Undisturbed region ring s ring' s') ∧
      (ret = length → ring.Accepts length → ring.Writes env buffer length (s.trylock env)))

/-- A `Get` that has the mutex and finds a record but does not succeed returns -1 and disturbs
nothing. -/
def GetAtomic (env : SdEnv) (region : SdStorage) (stack : Bytes) (ring : SdCircBuff)
    (buffer : Bytes) (length : Int) (s : SdState) : Prop :=
  ∃ ret filled ring' s', ring.get env stack buffer length s = some (ret,filled,ring',s') ∧
    (s.obtains env = true → ring.current ≠ 0 →
      ¬ring.Reads env stack buffer length (s.trylock env) →
        ret = -1 ∧ Undisturbed region ring s ring' s')

/-- What goes wrong in an accepted `Put` goes wrong in front of the change of `pWrite`. -/
def PutUnbroken (env : SdEnv) (ring : SdCircBuff) (buffer : Bytes) (length : Int) (s : SdState) :
    Prop :=
  s.obtains env = true → ring.Accepts length →
    (∃ s', ring.writeBlocks env ((ring.putWrites buffer length).take (ring.writesInPlace length))
        (s.trylock env) = some (false,s')) ∨
      ring.Writes env buffer length (s.trylock env)

/-- What goes wrong in a `Get` on a record goes wrong in the header. -/
def GetUnbroken (env : SdEnv) (stack : Bytes) (ring : SdCircBuff) (buffer : Bytes) (length : Int)
    (s : SdState) : Prop :=
  s.obtains env = true → ring.current ≠ 0 →
    (∃ memory s', ring.readBlocks env ring.headerReads stack (s.trylock env) =
        some (false,memory,s')) ∨
      ring.Reads env stack buffer length (s.trylock env)

variable {env : SdEnv} {region : SdStorage} {ring ring' : SdCircBuff} {s s' : SdState}
  {buffer : Bytes} {length err : Int}

theorem writeAt_effect (hring : ring.Seated region) {start p n : Int} (hp : 0 ≤ p)
    (hn : 0 ≤ n ∧ n ≤ ring.size - p)
    (h : ring.writeAt env buffer start p n s = some (err,s')) :
    WriteEffect env buffer start (region.iSectorStart * 512 + p) n (zeroFill (p % 512) n) err s
      s' := by
  obtain ⟨⟨hindex,hoffset⟩,hroom⟩ := room_of_seated hring hp
  have heffect := write_effect hoffset hn.1 (hroom.symm ▸ hn.2) h
  have hposition : (ring.iSectorStart + p.tdiv 512) * 512 + p.tmod 512 =
      region.iSectorStart * 512 + p := by
    rw [hring.storage,Int.tdiv_eq_ediv_of_nonneg hp,Int.tmod_eq_emod_of_nonneg hp]
    omega
  rwa [hposition,Int.tmod_eq_emod_of_nonneg hp] at heffect

/-- A queue stays stored when its bytes do. -/
theorem Laid.kept {queue : SdQueue} (hlaid : Laid region ring s queue)
    (hcard : ∀ k : Nat, k < used queue.records →
      s'.card (region.iSectorStart * 512 + wrap ring.size (queue.pRead + k)) =
        s.card (region.iSectorStart * 512 + wrap ring.size (queue.pRead + k))) :
    Laid region ring s' queue := by
  refine ⟨hlaid.seated,hlaid.pRead,hlaid.pWrite,hlaid.current,hlaid.records,fun k hk => ?_⟩
  have hused := used_eq_length queue.records
  rw [hcard k (by omega)]
  exact hlaid.stored k hk

theorem undisturbed_of_laid
    (hqueue : ∀ queue, Laid region ring s queue → Laid region ring s' queue) :
    Undisturbed region ring s ring s' := by
  refine ⟨rfl,rfl,rfl,hqueue,?_⟩
  intro record rest r w hlaid hplace env henv stack buffer length hlength
  obtain ⟨ring₁,s₁,hget,-⟩ := get_takes henv (hqueue _ hlaid) stack buffer hlength hplace
  exact ⟨ring₁,s₁,hget⟩

theorem undisturbed_of_card_eq (hcard : s'.card = s.card) :
    Undisturbed region ring s ring s' :=
  undisturbed_of_laid fun _ hlaid => hlaid.kept fun _ _ => congrFun hcard _

/-- A failing write of at most four bytes at `pWrite` reaches no stored record. -/
theorem header_failed {queue : SdQueue} (hlaid : Laid region ring s queue) {n : Int}
    (hn : (0 ≤ n ∧ n ≤ 4) ∧ n ≤ ring.size - ring.pWrite) (hroom : ring.Accepts length)
    (h : ring.writeAt env buffer 0 ring.pWrite n s = some (-1,s')) :
    Laid region ring s' queue := by
  have heffect := writeAt_effect hlaid.seated hlaid.seated.pWrite ⟨hn.1.1,hn.2⟩ h
  refine hlaid.kept fun k hk => ?_
  apply heffect.failed rfl
  obtain ⟨hlength,hspace⟩ := hroom
  have hint := hlaid.seated.int
  have hcurrent := hlaid.current
  have hpRead := hlaid.pRead
  have hpWrite := hlaid.pWrite
  simp only [toUnsigned,sizeofInt] at hspace
  unfold wrap at hpWrite ⊢
  split_ifs at hpWrite ⊢ <;> omega

/-- A header that fills the region to its end, and data at the beginning of the region that
fails, reach no stored record. -/
theorem between_failed {queue : SdQueue} (hlaid : Laid region ring s queue)
    (hbetween : ring.size - ring.pWrite = 4) (hroom : ring.Accepts length)
    (h : ring.writeBlocks env [⟨intMemory length,0,ring.pWrite,sizeofInt⟩,⟨buffer,0,0,length⟩] s =
      some (false,s')) : Laid region ring s' queue := by
  have hring := hlaid.seated
  have hpWrite := hring.pWrite
  have hint := hring.int
  rcases writeBlocks_failed h with hheader | ⟨err,s₁,hheader,herr,hrest⟩
  · exact header_failed hlaid (by simp only [sizeofInt]; omega) hroom hheader
  · have hdata : ring.writeAt env buffer 0 0 length s₁ = some (-1,s') :=
      writeBlocks_failed_single hrest
    obtain ⟨hlength,hspace⟩ := hroom
    have hfirst := writeAt_effect hring hring.pWrite (by simp only [sizeofInt]; omega) hheader
    refine hlaid.kept fun k hk => ?_
    have hcurrent := hlaid.current
    have hpRead := hlaid.pRead
    have hcursor := hlaid.pWrite
    simp only [toUnsigned,sizeofInt] at hspace
    have hlast := writeAt_effect hring (Int.le_refl 0) (by omega) hdata
    have hfill : zeroFill (ring.pWrite % 512) sizeofInt = 0 := by
      have hsize := hring.size
      rw [zeroFill,if_pos (by simp only [sizeofInt]; omega)]
    rw [hlast.failed rfl,hfirst.frame]
    · rw [hfill]
      simp only [sizeofInt]
      unfold wrap at hcursor ⊢
      split_ifs at hcursor ⊢ <;> omega
    · unfold wrap at hcursor ⊢
      split_ifs at hcursor ⊢ <;> omega

/-- The first block write is one of at most four bytes at `pWrite`. -/
theorem putWrites_first (hring : ring.Seated region) (hpWrite : ring.pWrite ≤ ring.size)
    (hlength : 0 ≤ length ∧ length ≤ 2048) :
    ∃ n blocks, ring.putWrites buffer length = ⟨intMemory length,0,ring.pWrite,n⟩ :: blocks ∧
      (0 ≤ n ∧ n ≤ 4) ∧ n ≤ ring.size - ring.pWrite := by
  have hint := hring.int
  have hpos := hring.pWrite
  unfold SdCircBuff.putWrites
  by_cases hwhole : ring.FitsWhole length
  · rw [if_pos hwhole]
    simp only [SdCircBuff.FitsWhole,toUnsigned,SdCircBuff.behind,sizeofInt] at hwhole
    exact ⟨_,_,rfl,by simp only [sizeofInt]; omega⟩
  · rw [if_neg hwhole]
    by_cases hbetween : sizeofInt = ring.behind ring.pWrite
    · rw [if_pos hbetween]
      simp only [toUnsigned,SdCircBuff.behind,sizeofInt] at hbetween
      exact ⟨_,_,rfl,by simp only [sizeofInt]; omega⟩
    · rw [if_neg hbetween,SdCircBuff.headerWrites]
      simp only [toUnsigned,SdCircBuff.behind,sizeofInt] at hbetween
      split
      · rename_i hheader
        simp only [toUnsigned,SdCircBuff.behind,sizeofInt] at hheader
        exact ⟨_,_,rfl,by simp only [sizeofInt]; omega⟩
      · rename_i hheader
        simp only [toUnsigned,SdCircBuff.behind,sizeofInt] at hheader
        exact ⟨_,_,rfl,by omega⟩

/-- When `Put` stops in front of the change of `pWrite`, the queue is as it was. -/
theorem prefix_failed (hroom : ring.Accepts length)
    (h : ring.writeBlocks env ((ring.putWrites buffer length).take (ring.writesInPlace length)) s =
      some (false,s')) : Undisturbed region ring s ring s' := by
  refine undisturbed_of_laid fun queue hlaid => ?_
  have hlength : 0 ≤ length ∧ length ≤ 2048 := by
    have hallowed := hroom.1
    omega
  have hpRead := hlaid.pRead
  have hcurrent := hlaid.current
  have hcursor := wrap_range ring.size (queue.pRead + used queue.records)
    (by have hstart := hlaid.seated.pRead; omega)
  rw [← hlaid.pWrite.2,← hlaid.pWrite.1] at hcursor
  rw [SdCircBuff.writesInPlace] at h
  by_cases hsplits : ring.SplitsBetween length
  · have hint := hlaid.seated.int
    have hbetween : ring.size - ring.pWrite = 4 := by
      have hbehind := hsplits.2
      simp only [toUnsigned,SdCircBuff.behind,sizeofInt] at hbehind
      omega
    rw [if_pos hsplits,SdCircBuff.putWrites,if_neg hsplits.1,if_pos hsplits.2] at h
    exact between_failed hlaid hbetween hroom h
  · obtain ⟨n,blocks,hblocks,hn⟩ := @putWrites_first region ring buffer length hlaid.seated
      (Int.le_of_lt hcursor.2) hlength
    rw [if_neg hsplits,hblocks] at h
    exact header_failed hlaid hn hroom (writeBlocks_failed_single h)

/-- A `Put` is atomic exactly when it is not broken off behind the change of `pWrite`. -/
theorem putAtomic_iff (hring : ring.Seated region) (hsize : ring.size ≠ sizeofInt)
    (buffer : Bytes) (length : Int) (s : SdState) :
    PutAtomic env region ring buffer length s ↔ PutUnbroken env ring buffer length s := by
  constructor
  · rintro ⟨ret,ring',s',hput,hatomic⟩ hobtains haccepts
    obtain ⟨hfails,-⟩ := hatomic hobtains
    obtain ⟨err,ring₁,s₁,hrecord,-,hret⟩ := put_accepted hobtains haccepts hput
    by_contra hbroken
    obtain ⟨hgoes,hwrites⟩ := not_or.mp hbroken
    obtain ⟨hminus,hsame⟩ := hfails fun hsucceeds => hwrites hsucceeds.2
    have hallowed := haccepts.1
    rcases hret with ⟨herr,-,rfl⟩ | ⟨-,hlength⟩
    · rcases putRecord_stopsOrMoves hsize hrecord with ⟨hstops,-⟩ | ⟨-,hmoves⟩
      · exact hgoes ⟨_,hstops⟩
      · exact hmoves.1 herr hsame.pWrite
    · omega
  · intro hunbroken
    obtain ⟨ret,ring',s',hput,-⟩ := put_ends env hring buffer length s
    refine ⟨ret,ring',s',hput,fun hobtains => ?_⟩
    by_cases haccepts : ring.Accepts length
    · obtain ⟨err,ring₁,s₁,hrecord,rfl,hret⟩ := put_accepted hobtains haccepts hput
      have hallowed := haccepts.1
      rcases hunbroken hobtains haccepts with ⟨s₂,hstops⟩ | hwrites
      · rcases putRecord_stopsOrMoves hsize hrecord with ⟨hstops',herr,rfl⟩ | ⟨⟨s₃,hgoes⟩,-⟩
        · rcases hret with ⟨-,rfl,rfl⟩ | ⟨hne,-⟩
          · refine ⟨fun _ => ⟨rfl,undisturbed_of_laid fun queue hlaid => ?_⟩,fun hlength => ?_⟩
            · have hqueue := (prefix_failed haccepts hstops').queue queue
                (hlaid.kept fun _ _ => rfl)
              exact hqueue.kept fun _ _ => rfl
            · omega
          · exact absurd herr hne
        · cases hstops.symm.trans hgoes
      · exact ⟨fun hfails => absurd ⟨haccepts,hwrites⟩ hfails,fun _ _ => hwrites⟩
    · obtain ⟨s₁,hrefused,hcard⟩ := @put_refused env ring s buffer length hobtains haccepts
      cases hrefused.symm.trans hput
      exact ⟨fun _ => ⟨rfl,undisturbed_of_card_eq hcard⟩,
        fun _ haccepted => absurd haccepted haccepts⟩

/-- A `Get` is atomic exactly when it is not broken off behind the header. -/
theorem getAtomic_iff (hring : ring.Seated region) (hsize : 8 < ring.size) (stack buffer : Bytes)
    (length : Int) (s : SdState) :
    GetAtomic env region stack ring buffer length s ↔
      GetUnbroken env stack ring buffer length s := by
  constructor
  · rintro ⟨ret,filled,ring',s',hget,hatomic⟩ hobtains hcurrent
    by_contra hbroken
    obtain ⟨hheader,hreads⟩ := not_or.mp hbroken
    obtain ⟨-,hsame⟩ := hatomic hobtains hcurrent hreads
    rcases get_stopsOrMoves hobtains hcurrent hget with ⟨hstops,-⟩ | ⟨-,hmoved | hsucceeds⟩
    · exact hheader hstops
    · exact behindRead_ne hring hsize (hmoved.symm.trans hsame.pRead)
    · exact hreads hsucceeds
  · intro hunbroken
    obtain ⟨ret,filled,ring',s',hget,-,hcard⟩ := get_ends env hring stack buffer length s
    refine ⟨ret,filled,ring',s',hget,fun hobtains hcurrent hfails => ?_⟩
    obtain ⟨memory,s₁,hheader⟩ := (hunbroken hobtains hcurrent).resolve_right hfails
    rcases get_stopsOrMoves hobtains hcurrent hget with ⟨-,rfl,rfl⟩ | ⟨⟨_,_,hgoes⟩,-⟩
    · exact ⟨rfl,undisturbed_of_card_eq hcard⟩
    · cases hheader.symm.trans hgoes

/-- A `Put` or a `Get` is atomic in the state that it finds. -/
def SdCall.Atomic (env : SdEnv) (region : SdStorage) (object : SdCircBuff × SdState) :
    SdCall → Prop
  | .put buffer length => PutAtomic env region object.1 buffer length object.2
  | .get stack buffer length => GetAtomic env region stack object.1 buffer length object.2
  | .storage _ | .probe => True

/-- A `Put` or a `Get` is not broken off behind the change of a cursor. -/
def SdCall.Unbroken (env : SdEnv) (object : SdCircBuff × SdState) : SdCall → Prop
  | .put buffer length => PutUnbroken env object.1 buffer length object.2
  | .get stack buffer length => GetUnbroken env stack object.1 buffer length object.2
  | .storage _ | .probe => True

/-- Every call leaves the ring over its region. -/
theorem seated_of_call {env : SdEnv} {region : SdStorage} {object object' : SdCircBuff × SdState}
    {call : SdCall} {reply : SdReply} (hring : object.1.Seated region)
    (h : SdCircBuff.call env object call = some (reply,object')) : object'.1.Seated region := by
  obtain ⟨ring,s⟩ := object
  cases call with
  | storage request =>
    obtain ⟨⟨reply₁,s₁⟩,-,hlast⟩ := Option.bind_eq_some_iff.mp h
    cases hlast
    exact hring
  | put buffer length =>
    obtain ⟨ret,ring',s',hput,hring',-⟩ := put_ends env hring buffer length s
    obtain ⟨⟨ret₁,ring₁,s₁⟩,hput₁,hlast⟩ := Option.bind_eq_some_iff.mp h
    cases hput.symm.trans hput₁
    cases hlast
    exact hring'
  | get stack buffer length =>
    obtain ⟨ret,filled,ring',s',hget,hring',-⟩ := get_ends env hring stack buffer length s
    obtain ⟨⟨ret₁,filled₁,ring₁,s₁⟩,hget₁,hlast⟩ := Option.bind_eq_some_iff.mp h
    cases hget.symm.trans hget₁
    cases hlast
    exact hring'
  | probe =>
    obtain ⟨ret,ring',s',hprobe,hring',-⟩ := probe_ends env hring s
    obtain ⟨⟨ret₁,ring₁,s₁⟩,hprobe₁,hlast⟩ := Option.bind_eq_some_iff.mp h
    cases hprobe.symm.trans hprobe₁
    cases hlast
    exact hring'

theorem call_atomic_iff {env : SdEnv} {region : SdStorage} {object : SdCircBuff × SdState}
    (hring : object.1.Seated region) (hsectors : 1 ≤ region.nSectors) (call : SdCall) :
    call.Atomic env region object ↔ call.Unbroken env object := by
  have hsize := hring.size
  cases call with
  | put buffer length =>
    exact putAtomic_iff hring (by simp only [sizeofInt]; omega) buffer length object.2
  | get stack buffer length => exact getAtomic_iff hring (by omega) stack buffer length object.2
  | storage _ => exact Iff.rfl
  | probe => exact Iff.rfl

/-- From construction on, in any environment, every `Put` and every `Get` of a run is atomic
exactly when none of them is broken off behind the change of a cursor. -/
theorem sdCircBuff_atomic_iff (env : SdEnv) (memory : SdStorage)
    {maxSectors iSectStart nSects : Int} (hcard : nSects < maxSectors)
    (hregion : 1 ≤ nSects ∧ nSects * 512 < 2 ^ 31) (s : SdState) (calls : List SdCall) :
    Transition.Meets (SdCircBuff.call env)
        (fun object call => call.Atomic env ⟨iSectStart,nSects⟩ object)
        (SdCircBuff.new env memory maxSectors iSectStart nSects s) calls ↔
      Transition.Meets (SdCircBuff.call env) (fun object call => call.Unbroken env object)
        (SdCircBuff.new env memory maxSectors iSectStart nSects s) calls := by
  have hlaid : Laid ⟨iSectStart,nSects⟩ _ _ ⟨[],0,0⟩ := laid_new env memory hcard hregion s
  exact Transition.meets_congr (I := fun object => object.1.Seated ⟨iSectStart,nSects⟩)
    (fun _ _ _ _ hring hcall => seated_of_call hring hcall)
    (fun _ call hring => call_atomic_iff hring hregion.1 call) calls hlaid.seated

/-- A card that refuses one command. -/
def refusingEnv (k : Nat) : SdEnv := ⟨fun n => ⟨true,decide (n ≠ k),true⟩,fun _ => true⟩

/-- A header that the card refuses. -/
theorem sdCircBuff_atomic_iff_header : Transition.Meets (SdCircBuff.call (refusingEnv 1))
    (fun object call => call.Atomic (refusingEnv 1) ⟨100,1⟩ object)
    (SdCircBuff.new (refusingEnv 1) ⟨0,0⟩ 1000 100 1 erased) [.put (fun _ => 7) 3] := by
  refine (sdCircBuff_atomic_iff (refusingEnv 1) ⟨0,0⟩ (by decide) (by decide) erased _).mpr
    ⟨fun _ _ => .inl ?_,fun _ _ _ => trivial⟩
  have hfails : ((SdCircBuff.new (refusingEnv 1) ⟨0,0⟩ 1000 100 1 erased).1.writeBlocks
      (refusingEnv 1) [⟨intMemory 3,0,0,4⟩]
      ((SdCircBuff.new (refusingEnv 1) ⟨0,0⟩ 1000 100 1 erased).2.trylock (refusingEnv 1))).map
        Prod.fst = some false := by decide +kernel
  obtain ⟨⟨all,s'⟩,hwrites,hall⟩ := Option.map_eq_some_iff.mp hfails
  simp only at hall
  subst hall
  exact ⟨s',hwrites⟩

/-- The card refuses the data of a record, and `Put` returns its length. On a card that refuses
nothing, a `Get` without room for the record moves `pRead` behind its header, so that the next one
does not return it. -/
theorem sdCircBuff_not_atomic :
    ¬Transition.Meets (SdCircBuff.call (refusingEnv 3))
        (fun object call => call.Atomic (refusingEnv 3) ⟨100,1⟩ object)
        (SdCircBuff.new (refusingEnv 3) ⟨0,0⟩ 1000 100 1 erased) [.put (fun _ => 7) 3] ∧
    (Transition.run (SdCircBuff.call faultlessEnv)
        (SdCircBuff.new faultlessEnv ⟨0,0⟩ 1000 100 1 erased)
        [.put (fun _ => 7) 3,.get (fun _ => 0) (fun _ => 0) 1,
          .get (fun _ => 0) (fun _ => 0) 512]).map
        (fun result => (result.1.map SdReply.ret,result.2.1.pRead,result.2.1.current)) =
      some ([3,-1,-1],8,7) := by
  refine ⟨?_,by decide +kernel⟩
  rintro ⟨⟨ret,ring',s',hput,hatomic⟩,-⟩
  have hret : ((SdCircBuff.new (refusingEnv 3) ⟨0,0⟩ 1000 100 1 erased).1.put (refusingEnv 3)
      (fun _ => 7) 3 (SdCircBuff.new (refusingEnv 3) ⟨0,0⟩ 1000 100 1 erased).2).map Prod.fst =
        some 3 := by decide +kernel
  have hfails : ((SdCircBuff.new (refusingEnv 3) ⟨0,0⟩ 1000 100 1 erased).1.writeBlocks
      (refusingEnv 3) [⟨intMemory 3,0,0,4⟩,⟨fun _ => 7,0,4,3⟩]
      ((SdCircBuff.new (refusingEnv 3) ⟨0,0⟩ 1000 100 1 erased).2.trylock (refusingEnv 3))).map
        Prod.fst = some false := by decide +kernel
  have hthree : ret = 3 := by
    rw [hput] at hret
    exact Option.some.inj hret
  apply absurd ((hatomic rfl).1 ?_).1
  · rw [hthree]
    decide
  · rintro ⟨-,s₁,hwrites,-⟩
    have hwritten : SdStorage.writeBlocks (refusingEnv 3) _ [⟨intMemory 3,0,0,4⟩,
      ⟨fun _ => 7,0,4,3⟩] _ = some (true,s₁) := hwrites
    rw [hwritten] at hfails
    cases hfails

end Pyrn.Storage
