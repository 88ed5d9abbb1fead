import Pyrn.Storage.SdRegion

/-!
# The block operations of `Put` and `Get`

What a call asks of the region is a list of block writes or block reads. `Put` moves `pWrite`
behind its first block write, or behind the second one when the header fills the region to its
end; `Get` moves `pRead` behind the header. A call either fails in front of that or has moved its
cursor.
-/

namespace Pyrn.Storage

open BlockCopy

/-- The arguments of a `Write` inside `Put`: the memory, the place in it and in the region. -/
structure BlockWrite where
  buffer : Bytes
  start : Int
  p : Int
  length : Int

/-- The arguments of a `Read` inside `Get`: the place in the memory and in the region. -/
structure BlockRead where
  start : Int
  p : Int
  length : Int

/-- Block writes one behind the other, up to the first that returns -1: whether all have
succeeded. -/
def SdStorage.writeBlocks (env : SdEnv) (region : SdStorage) :
    List BlockWrite → SdState → Option (Bool × SdState)
  | [], s => some (true,s)
  | ⟨buffer,start,p,length⟩ :: blocks, s => do
      let (err,s) ← region.write env buffer start (p.tdiv 512) length (p.tmod 512) s
      if err = -1 then return (false,s)
      region.writeBlocks env blocks s

/-- Block reads one behind the other, up to the first that returns -1. -/
def SdStorage.readBlocks (env : SdEnv) (region : SdStorage) :
    List BlockRead → Bytes → SdState → Option (Bool × Bytes × SdState)
  | [], buffer, s => some (true,buffer,s)
  | ⟨start,p,length⟩ :: blocks, buffer, s => do
      let (err,buffer,s) ← region.read env buffer start (p.tdiv 512) length (p.tmod 512) s
      if err = -1 then return (false,buffer,s)
      region.readBlocks env blocks buffer s

namespace SdCircBuff

/-- The block writes of the header when header and data are split. -/
def headerWrites (ring : SdCircBuff) (length : Int) : List BlockWrite :=
  if sizeofInt < ring.behind ring.pWrite then [⟨intMemory length,0,ring.pWrite,sizeofInt⟩]
  else
    let sz := ring.size - ring.pWrite
    [⟨intMemory length,0,ring.pWrite,sz⟩,⟨intMemory length,sz,0,sizeofInt - sz⟩]

/-- Where `Put` moves `pWrite` behind that header. -/
def behindWritten (ring : SdCircBuff) : Int :=
  if sizeofInt < ring.behind ring.pWrite then ring.pWrite + sizeofInt
  else sizeofInt - (ring.size - ring.pWrite)

/-- The block writes of the data at `p`. -/
def dataWrites (ring : SdCircBuff) (buffer : Bytes) (p length : Int) : List BlockWrite :=
  if length < ring.size - p then [⟨buffer,0,p,length⟩]
  else
    let sz := ring.size - p
    [⟨buffer,0,p,sz⟩,⟨buffer,sz,0,length - sz⟩]

/-- Header and data fit in front of the end of the region. -/
def FitsWhole (ring : SdCircBuff) (length : Int) : Prop :=
  toUnsigned (length + sizeofInt) ≤ ring.behind ring.pWrite

/-- The end of the region lies between header and data. -/
def SplitsBetween (ring : SdCircBuff) (length : Int) : Prop :=
  ¬ring.FitsWhole length ∧ sizeofInt = ring.behind ring.pWrite

instance (ring : SdCircBuff) (length : Int) : Decidable (ring.FitsWhole length) :=
  inferInstanceAs (Decidable (_ ≤ _))

instance (ring : SdCircBuff) (length : Int) : Decidable (ring.SplitsBetween length) :=
  inferInstanceAs (Decidable (_ ∧ _))

/-- The block writes of a `Put` with enough space. -/
def putWrites (ring : SdCircBuff) (buffer : Bytes) (length : Int) : List BlockWrite :=
  if ring.FitsWhole length then
    [⟨intMemory length,0,ring.pWrite,sizeofInt⟩,⟨buffer,0,ring.pWrite + sizeofInt,length⟩]
  else if sizeofInt = ring.behind ring.pWrite then
    [⟨intMemory length,0,ring.pWrite,sizeofInt⟩,⟨buffer,0,0,length⟩]
  else ring.headerWrites length ++ ring.dataWrites buffer ring.behindWritten length

/-- The number of block writes that `Put` makes before it moves `pWrite`. -/
def writesInPlace (ring : SdCircBuff) (length : Int) : Nat :=
  if ring.SplitsBetween length then 2 else 1

/-- The block reads of the header. -/
def headerReads (ring : SdCircBuff) : List BlockRead :=
  if sizeofInt ≤ ring.behind ring.pRead then [⟨0,ring.pRead,sizeofInt⟩]
  else
    let sz := ring.size - ring.pRead
    [⟨0,ring.pRead,sz⟩,⟨sz,0,sizeofInt - sz⟩]

/-- Where `Get` moves `pRead` behind the header. -/
def behindRead (ring : SdCircBuff) : Int :=
  ring.headerEnd (decide (ring.behind ring.pRead < sizeofInt))

/-- The block reads of the data at `p`. -/
def dataReads (ring : SdCircBuff) (p blocLen : Int) : List BlockRead :=
  if blocLen ≤ ring.size - p then [⟨0,p,blocLen⟩]
  else [⟨0,p,blocLen⟩,⟨ring.size - p,0,blocLen - (ring.size - p)⟩]

/-- The length is allowed and there is enough space. -/
def Accepts (ring : SdCircBuff) (length : Int) : Prop :=
  ¬(length < 0 ∨ length > 2048) ∧
    toUnsigned (ring.current + length + sizeofInt) < toUnsigned ring.size

instance (ring : SdCircBuff) (length : Int) : Decidable (ring.Accepts length) :=
  inferInstanceAs (Decidable (_ ∧ _))

/-- No block read of a `Get` returns -1, and the length word is one that `Get` accepts and not
more than the caller has room for. -/
def Reads (env : SdEnv) (stack : Bytes) (ring : SdCircBuff) (buffer : Bytes) (length : Int)
    (s : SdState) : Prop :=
  ∃ memory s₁, ring.readBlocks env ring.headerReads stack s = some (true,memory,s₁) ∧
    (0 < intAt memory ∧ intAt memory < 2048) ∧ intAt memory ≤ length ∧
    ∃ filled s₂, ring.readBlocks env (ring.dataReads ring.behindRead (intAt memory)) buffer s₁ =
      some (true,filled,s₂)

end SdCircBuff

variable {env : SdEnv} {region : SdStorage} {ring ring' : SdCircBuff} {s s' : SdState}

/-- What the code does with the result of a block operation: it returns, or goes on. -/
theorem stops_or_goes {α : Type} {err : Int} {stop result : α} {rest : Option α}
    (h : (if err = -1 then some stop else rest) = some result) :
    err = -1 ∧ stop = result ∨ err ≠ -1 ∧ rest = some result := by
  by_cases herr : err = -1
  · rw [if_pos herr] at h
    exact .inl ⟨herr,Option.some.inj h⟩
  · rw [if_neg herr] at h
    exact .inr ⟨herr,h⟩

theorem writeBlocks_stop {buffer : Bytes} {start p length : Int}
    (h : ring.writeAt env buffer start p length s = some (-1,s')) (blocks : List BlockWrite) :
    ring.writeBlocks env (⟨buffer,start,p,length⟩ :: blocks) s = some (false,s') := by
  rw [SdCircBuff.writeAt] at h
  rw [SdStorage.writeBlocks,h]
  rfl

theorem writeBlocks_go {buffer : Bytes} {start p length err : Int}
    (h : ring.writeAt env buffer start p length s = some (err,s')) (herr : err ≠ -1)
    (blocks : List BlockWrite) :
    ring.writeBlocks env (⟨buffer,start,p,length⟩ :: blocks) s =
      ring.writeBlocks env blocks s' := by
  rw [SdCircBuff.writeAt] at h
  rw [SdStorage.writeBlocks,h]
  exact if_neg herr

theorem readBlocks_stop {buffer buffer' : Bytes} {start p length : Int}
    (h : ring.readAt env buffer start p length s = some (-1,buffer',s'))
    (blocks : List BlockRead) :
    ring.readBlocks env (⟨start,p,length⟩ :: blocks) buffer s = some (false,buffer',s') := by
  rw [SdCircBuff.readAt] at h
  rw [SdStorage.readBlocks,h]
  rfl

theorem readBlocks_go {buffer buffer' : Bytes} {start p length err : Int}
    (h : ring.readAt env buffer start p length s = some (err,buffer',s')) (herr : err ≠ -1)
    (blocks : List BlockRead) :
    ring.readBlocks env (⟨start,p,length⟩ :: blocks) buffer s =
      ring.readBlocks env blocks buffer' s' := by
  rw [SdCircBuff.readAt] at h
  rw [SdStorage.readBlocks,h]
  exact if_neg herr

/-- The last block read of a list. -/
theorem readBlocks_last {buffer buffer' : Bytes} {start p length err : Int}
    (h : ring.readAt env buffer start p length s = some (err,buffer',s')) :
    ring.readBlocks env [⟨start,p,length⟩] buffer s = some (decide (err ≠ -1),buffer',s') := by
  by_cases herr : err = -1
  · subst herr
    exact readBlocks_stop h []
  · rw [decide_eq_true herr]
    exact readBlocks_go h herr []

/-- Two lists of block writes succeed as one only if both do. -/
theorem writeBlocks_append {blocks blocks' : List BlockWrite}
    (h : ring.writeBlocks env (blocks ++ blocks') s = some (true,s')) :
    ∃ s₁, ring.writeBlocks env blocks s = some (true,s₁) ∧
      ring.writeBlocks env blocks' s₁ = some (true,s') := by
  induction blocks generalizing s with
  | nil => exact ⟨s,rfl,h⟩
  | cons block blocks ih =>
    obtain ⟨buffer,start,p,length⟩ := block
    rw [List.cons_append,SdStorage.writeBlocks] at h
    obtain ⟨⟨err,s₁⟩,hwrite,hrest⟩ := Option.bind_eq_some_iff.mp h
    rcases stops_or_goes hrest with ⟨-,hstop⟩ | ⟨herr,hgo⟩
    · cases hstop
    · obtain ⟨s₂,hfirst,hlast⟩ := ih hgo
      exact ⟨s₂,(writeBlocks_go hwrite herr blocks).trans hfirst,hlast⟩

theorem writeBlocks_failed {buffer : Bytes} {start p length : Int} {blocks : List BlockWrite}
    (h : ring.writeBlocks env (⟨buffer,start,p,length⟩ :: blocks) s = some (false,s')) :
    ring.writeAt env buffer start p length s = some (-1,s') ∨
      ∃ err s₁, ring.writeAt env buffer start p length s = some (err,s₁) ∧ err ≠ -1 ∧
        ring.writeBlocks env blocks s₁ = some (false,s') := by
  rw [SdStorage.writeBlocks] at h
  obtain ⟨⟨err,s₁⟩,hwrite,hrest⟩ := Option.bind_eq_some_iff.mp h
  rcases stops_or_goes hrest with ⟨rfl,hstop⟩ | ⟨herr,hgo⟩
  · cases hstop
    exact .inl hwrite
  · exact .inr ⟨err,s₁,hwrite,herr,hgo⟩

theorem writeBlocks_failed_single {buffer : Bytes} {start p length : Int}
    (h : ring.writeBlocks env [⟨buffer,start,p,length⟩] s = some (false,s')) :
    ring.writeAt env buffer start p length s = some (-1,s') := by
  rcases writeBlocks_failed h with hwrite | ⟨err,s₁,-,-,hnone⟩
  · exact hwrite
  · cases hnone

/-- Either the first `k` of the block writes fail and the ring is as it was, or they succeed, and
a failure behind them finds `pWrite` changed. When all of them succeed, nothing fails. -/
def StopsOrMoves (env : SdEnv) (ring : SdCircBuff) (blocks : List BlockWrite) (k : Nat)
    (s : SdState) (err : Int) (ring' : SdCircBuff) (s' : SdState) : Prop :=
  (ring.writeBlocks env (blocks.take k) s = some (false,s') ∧ err = -1 ∧ ring' = ring) ∨
    (∃ s₁, ring.writeBlocks env (blocks.take k) s = some (true,s₁)) ∧
      (err = -1 → ring'.pWrite ≠ ring.pWrite) ∧
      ∀ s₁, ring.writeBlocks env blocks s = some (true,s₁) → err ≠ -1 ∧ s' = s₁

variable {buffer : Bytes} {length err : Int}

/-- The last block write of a list that succeeds. -/
theorem writeBlocks_last {start p n : Int} {s₁ : SdState}
    (h : ring.writeAt env buffer start p n s = some (err,s'))
    (hwritten : ring.writeBlocks env [⟨buffer,start,p,n⟩] s = some (true,s₁)) :
    err ≠ -1 ∧ s' = s₁ := by
  by_cases herr : err = -1
  · subst herr
    cases (writeBlocks_stop h []).symm.trans hwritten
  · cases (writeBlocks_go h herr []).symm.trans hwritten
    exact ⟨herr,rfl⟩

theorem putWhole_stopsOrMoves
    (h : ring.putWhole env buffer length s = some (err,ring',s')) :
    StopsOrMoves env ring [⟨intMemory length,0,ring.pWrite,sizeofInt⟩,
      ⟨buffer,0,ring.pWrite + sizeofInt,length⟩] 1 s err ring' s' := by
  rw [SdCircBuff.putWhole] at h
  obtain ⟨⟨err₁,s₁⟩,hheader,hrest⟩ := Option.bind_eq_some_iff.mp h
  rcases stops_or_goes hrest with ⟨rfl,hstop⟩ | ⟨herr,hgo⟩
  · cases hstop
    exact .inl ⟨writeBlocks_stop hheader [],rfl,rfl⟩
  · obtain ⟨⟨err₂,s₂⟩,hdata,hlast⟩ := Option.bind_eq_some_iff.mp hgo
    cases hlast
    refine .inr ⟨⟨s₁,writeBlocks_go hheader herr []⟩,fun hfails => absurd hfails herr,?_⟩
    intro s₃ hwritten
    rw [writeBlocks_go hheader herr] at hwritten
    exact ⟨herr,(writeBlocks_last hdata hwritten).2⟩

theorem putBetween_stopsOrMoves
    (h : ring.putBetween env buffer length s = some (err,ring',s')) :
    StopsOrMoves env ring [⟨intMemory length,0,ring.pWrite,sizeofInt⟩,⟨buffer,0,0,length⟩] 2 s err
      ring' s' := by
  rw [SdCircBuff.putBetween] at h
  obtain ⟨⟨err₁,s₁⟩,hheader,hrest⟩ := Option.bind_eq_some_iff.mp h
  rcases stops_or_goes hrest with ⟨rfl,hstop⟩ | ⟨herr,hgo⟩
  · cases hstop
    exact .inl ⟨writeBlocks_stop hheader _,rfl,rfl⟩
  · obtain ⟨⟨err₂,s₂⟩,hdata,hlast⟩ := Option.bind_eq_some_iff.mp hgo
    have hwrite : ring.writeAt env buffer 0 0 length s₁ = some (err₂,s₂) := hdata
    have hblocks := writeBlocks_go hheader herr [⟨buffer,0,0,length⟩]
    rcases stops_or_goes hlast with ⟨rfl,hstop⟩ | ⟨herr₂,hend⟩
    · cases hstop
      exact .inl ⟨hblocks.trans (writeBlocks_stop hwrite []),rfl,rfl⟩
    · cases hend
      have hall := hblocks.trans (writeBlocks_go hwrite herr₂ [])
      refine .inr ⟨⟨_,hall⟩,fun hfails => absurd hfails herr₂,fun s₃ hwritten => ?_⟩
      cases hall.symm.trans hwritten
      exact ⟨herr₂,rfl⟩

/-- The header part of a split `Put`: it stops at its first write, or moves `pWrite`. -/
theorem putHeader_stopsOrMoves (h : ring.putHeader env length s = some (err,ring',s')) :
    (ring.writeBlocks env ((ring.headerWrites length).take 1) s = some (false,s') ∧ err = -1 ∧
        ring' = ring) ∨
      (∃ s₁, ring.writeBlocks env ((ring.headerWrites length).take 1) s = some (true,s₁)) ∧
        err ≠ -1 ∧ ring' = { ring with pWrite := ring.behindWritten } ∧
        ∀ s₁, ring.writeBlocks env (ring.headerWrites length) s = some (true,s₁) → s₁ = s' := by
  rw [SdCircBuff.putHeader] at h
  rw [SdCircBuff.headerWrites,SdCircBuff.behindWritten]
  by_cases hwhole : sizeofInt < ring.behind ring.pWrite
  · rw [if_pos hwhole] at h ⊢
    rw [if_pos hwhole]
    obtain ⟨⟨err₁,s₁⟩,hheader,hrest⟩ := Option.bind_eq_some_iff.mp h
    rcases stops_or_goes hrest with ⟨rfl,hstop⟩ | ⟨herr,hend⟩
    · cases hstop
      exact .inl ⟨writeBlocks_stop hheader [],rfl,rfl⟩
    · cases hend
      refine .inr ⟨⟨_,writeBlocks_go hheader herr []⟩,herr,rfl,fun s₂ hwritten => ?_⟩
      exact (writeBlocks_last hheader hwritten).2.symm
  · rw [if_neg hwhole] at h ⊢
    rw [if_neg hwhole]
    obtain ⟨⟨err₁,s₁⟩,hlow,hrest⟩ := Option.bind_eq_some_iff.mp h
    rcases stops_or_goes hrest with ⟨rfl,hstop⟩ | ⟨herr,hgo⟩
    · cases hstop
      exact .inl ⟨writeBlocks_stop hlow [],rfl,rfl⟩
    · obtain ⟨⟨err₂,s₂⟩,hhigh,hend⟩ := Option.bind_eq_some_iff.mp hgo
      have hwrite : ring.writeAt env (intMemory length) (ring.size - ring.pWrite) 0
        (sizeofInt - (ring.size - ring.pWrite)) s₁ = some (err₂,s₂) := hhigh
      cases hend
      refine .inr ⟨⟨_,writeBlocks_go hlow herr []⟩,herr,rfl,fun s₃ hwritten => ?_⟩
      rw [writeBlocks_go hlow herr] at hwritten
      exact (writeBlocks_last hwrite hwritten).2.symm

/-- The data part of a split `Put`. -/
theorem putData_stopsOrMoves (h : ring.putData env buffer length s = some (err,ring',s')) :
    (err = -1 → ring' = ring) ∧
      ∀ s₁, ring.writeBlocks env (ring.dataWrites buffer ring.pWrite length) s =
        some (true,s₁) → err ≠ -1 ∧ s' = s₁ := by
  rw [SdCircBuff.putData] at h
  rw [SdCircBuff.dataWrites]
  by_cases hwhole : length < ring.size - ring.pWrite
  · rw [if_pos hwhole] at h ⊢
    obtain ⟨⟨err₁,s₁⟩,hdata,hrest⟩ := Option.bind_eq_some_iff.mp h
    rcases stops_or_goes hrest with ⟨rfl,hstop⟩ | ⟨herr,hend⟩
    · cases hstop
      exact ⟨fun _ => rfl,fun _ hwritten => writeBlocks_last hdata hwritten⟩
    · cases hend
      exact ⟨fun hfails => absurd hfails herr,fun _ hwritten => writeBlocks_last hdata hwritten⟩
  · rw [if_neg hwhole] at h ⊢
    obtain ⟨⟨err₁,s₁⟩,hlow,hrest⟩ := Option.bind_eq_some_iff.mp h
    rcases stops_or_goes hrest with ⟨rfl,hstop⟩ | ⟨herr,hgo⟩
    · cases hstop
      refine ⟨fun _ => rfl,fun s₂ hwritten => ?_⟩
      cases (writeBlocks_stop hlow _).symm.trans hwritten
    · obtain ⟨⟨err₂,s₂⟩,hhigh,hlast⟩ := Option.bind_eq_some_iff.mp hgo
      have hwrite : ring.writeAt env buffer (ring.size - ring.pWrite) 0
        (length - (ring.size - ring.pWrite)) s₁ = some (err₂,s₂) := hhigh
      rw [writeBlocks_go hlow herr]
      rcases stops_or_goes hlast with ⟨rfl,hstop⟩ | ⟨herr₂,hend⟩
      · cases hstop
        exact ⟨fun _ => rfl,fun _ hwritten => writeBlocks_last hwrite hwritten⟩
      · cases hend
        exact ⟨fun hfails => absurd hfails herr₂,
          fun _ hwritten => writeBlocks_last hwrite hwritten⟩

/-- `behindWritten` is another position, unless header and region have one size. -/
theorem behindWritten_ne (hsize : ring.size ≠ sizeofInt) : ring.behindWritten ≠ ring.pWrite := by
  simp only [sizeofInt] at hsize
  simp only [SdCircBuff.behindWritten,sizeofInt,ne_eq]
  split_ifs <;> omega

theorem putSplit_stopsOrMoves (hsize : ring.size ≠ sizeofInt)
    (h : ring.putSplit env buffer length s = some (err,ring',s')) :
    StopsOrMoves env ring
      (ring.headerWrites length ++ ring.dataWrites buffer ring.behindWritten length) 1 s err
      ring' s' := by
  have htake : (ring.headerWrites length ++
      ring.dataWrites buffer ring.behindWritten length).take 1 =
        (ring.headerWrites length).take 1 := by
    unfold SdCircBuff.headerWrites
    split <;> rfl
  rw [SdCircBuff.putSplit] at h
  rw [StopsOrMoves,htake]
  obtain ⟨⟨err₁,ring₁,s₁⟩,hheader,hrest⟩ := Option.bind_eq_some_iff.mp h
  simp only at hrest
  rcases putHeader_stopsOrMoves hheader with ⟨hstops,herr,hsame⟩ |
    ⟨hgoes,herr,hmoved,hwritten⟩
  · cases (if_pos herr).symm.trans hrest
    exact .inl ⟨hstops,rfl,hsame⟩
  · obtain ⟨hsame,hdata⟩ := putData_stopsOrMoves ((if_neg herr).symm.trans hrest)
    subst hmoved
    refine .inr ⟨hgoes,fun hfails => ?_,fun s₂ hall => ?_⟩
    · rw [hsame hfails]
      exact behindWritten_ne hsize
    · obtain ⟨s₃,hfirst,hlast⟩ := writeBlocks_append hall
      rw [hwritten s₃ hfirst] at hlast
      exact hdata s₂ hlast

/-- Header and data of an accepted record. -/
theorem putRecord_stopsOrMoves (hsize : ring.size ≠ sizeofInt)
    (h : ring.putRecord env buffer length s = some (err,ring',s')) :
    StopsOrMoves env ring (ring.putWrites buffer length) (ring.writesInPlace length) s err ring'
      s' := by
  rw [SdCircBuff.putRecord] at h
  rw [SdCircBuff.putWrites,SdCircBuff.writesInPlace]
  by_cases hwhole : ring.FitsWhole length
  · rw [if_pos hwhole,if_neg (fun hbetween => hbetween.1 hwhole)]
    exact putWhole_stopsOrMoves ((if_pos hwhole).symm.trans h)
  · have hrest := (if_neg hwhole).symm.trans h
    rw [if_neg hwhole]
    by_cases hbetween : sizeofInt = ring.behind ring.pWrite
    · rw [if_pos hbetween] at hrest ⊢
      rw [if_pos ⟨hwhole,hbetween⟩]
      exact putBetween_stopsOrMoves hrest
    · rw [if_neg hbetween] at hrest ⊢
      rw [if_neg (fun hsplits => hbetween hsplits.2)]
      exact putSplit_stopsOrMoves hsize hrest

theorem put_refused (hobtains : s.obtains env = true) (hrefused : ¬ring.Accepts length) :
    ∃ s', ring.put env buffer length s = some (-1,ring,s') ∧ s'.card = s.card := by
  rw [SdCircBuff.put,if_pos hobtains]
  by_cases hallowed : length < 0 ∨ length > 2048
  · rw [if_pos hallowed]
    exact ⟨_,rfl,rfl⟩
  · rw [if_neg hallowed,if_neg fun hspace => hrefused ⟨hallowed,hspace⟩]
    exact ⟨_,rfl,rfl⟩

theorem put_accepted {ret : Int} (hobtains : s.obtains env = true) (haccepts : ring.Accepts length)
    (h : ring.put env buffer length s = some (ret,ring',s')) :
    ∃ err ring₁ s₁, ring.putRecord env buffer length (s.trylock env) = some (err,ring₁,s₁) ∧
      s' = s₁.unlock ∧ (err = -1 ∧ ret = -1 ∧ ring' = ring₁ ∨ err ≠ -1 ∧ ret = length) := by
  rw [SdCircBuff.put,if_pos hobtains,if_neg haccepts.1,if_pos haccepts.2] at h
  obtain ⟨⟨err,ring₁,s₁⟩,hrecord,hlast⟩ := Option.bind_eq_some_iff.mp h
  refine ⟨err,ring₁,s₁,hrecord,?_⟩
  rcases stops_or_goes hlast with ⟨herr,hstop⟩ | ⟨herr,hend⟩
  · cases hstop
    exact ⟨rfl,.inl ⟨herr,rfl,rfl⟩⟩
  · cases hend
    exact ⟨rfl,.inr ⟨herr,rfl⟩⟩

/-- An accepted `Put` whose block writes all succeed returns the length. -/
theorem put_of_writes (hring : ring.Seated region) (hsize : ring.size ≠ sizeofInt)
    (hobtains : s.obtains env = true) (haccepts : ring.Accepts length) {s₁ : SdState}
    (h : ring.writeBlocks env (ring.putWrites buffer length) (s.trylock env) = some (true,s₁)) :
    ∃ ring', ring.put env buffer length s = some (length,ring',s₁.unlock) := by
  obtain ⟨ret,ring',s',hput,-⟩ := put_ends env hring buffer length s
  obtain ⟨err,ring₁,s₂,hrecord,rfl,hret⟩ := put_accepted hobtains haccepts hput
  have hnever : ¬err = -1 ∧ s₂ = s₁ := by
    rcases putRecord_stopsOrMoves hsize hrecord with ⟨hstops,-⟩ | ⟨-,-,hall⟩
    · rw [← List.take_append_drop (ring.writesInPlace length) (ring.putWrites buffer length)] at h
      obtain ⟨s₃,hfirst,-⟩ := writeBlocks_append h
      cases hstops.symm.trans hfirst
    · exact hall s₁ h
  obtain ⟨hne,rfl⟩ := hnever
  obtain ⟨herr,-⟩ | ⟨-,rfl⟩ := hret
  · exact absurd herr hne
  · exact ⟨ring',hput⟩

variable {stack memory filled : Bytes}

theorem readHeader_reads {split : Bool}
    (h : ring.readHeader env stack s = some (err,memory,split,s')) :
    ring.readBlocks env ring.headerReads stack s = some (decide (err ≠ -1),memory,s') ∧
      ring.headerEnd split = ring.behindRead := by
  rw [SdCircBuff.readHeader] at h
  rw [SdCircBuff.headerReads,SdCircBuff.behindRead]
  by_cases hwhole : sizeofInt ≤ ring.behind ring.pRead
  · rw [if_pos hwhole] at h ⊢
    obtain ⟨⟨err₁,memory₁,s₁⟩,hread,hlast⟩ := Option.bind_eq_some_iff.mp h
    cases hlast
    rw [decide_eq_false (Int.not_lt.mpr hwhole)]
    exact ⟨readBlocks_last hread,rfl⟩
  · rw [if_neg hwhole] at h ⊢
    rw [decide_eq_true (Int.not_le.mp hwhole)]
    obtain ⟨⟨err₁,memory₁,s₁⟩,hlow,hrest⟩ := Option.bind_eq_some_iff.mp h
    rcases stops_or_goes hrest with ⟨rfl,hstop⟩ | ⟨herr,hgo⟩
    · cases hstop
      exact ⟨readBlocks_stop hlow _,rfl⟩
    · obtain ⟨⟨err₂,memory₂,s₂⟩,hhigh,hlast⟩ := Option.bind_eq_some_iff.mp hgo
      have hread : ring.readAt env memory₁ (ring.size - ring.pRead) 0
        (sizeofInt - (ring.size - ring.pRead)) s₁ = some (err₂,memory₂,s₂) := hhigh
      cases hlast
      exact ⟨(readBlocks_go hlow herr _).trans (readBlocks_last hread),rfl⟩

theorem getData_reads {blocLen : Int}
    (h : ring.getData env buffer blocLen s = some (err,filled,ring',s')) :
    ring.readBlocks env (ring.dataReads ring.pRead blocLen) buffer s =
        some (decide (err ≠ -1),filled,s') ∧
      (err = -1 → ring' = ring) := by
  rw [SdCircBuff.getData] at h
  rw [SdCircBuff.dataReads]
  by_cases hwhole : blocLen ≤ ring.size - ring.pRead
  · rw [if_pos hwhole] at h ⊢
    obtain ⟨⟨err₁,filled₁,s₁⟩,hread,hrest⟩ := Option.bind_eq_some_iff.mp h
    rcases stops_or_goes hrest with ⟨rfl,hstop⟩ | ⟨herr,hend⟩
    · cases hstop
      exact ⟨readBlocks_last hread,fun _ => rfl⟩
    · cases hend
      exact ⟨readBlocks_last hread,fun hfails => absurd hfails herr⟩
  · rw [if_neg hwhole] at h ⊢
    obtain ⟨⟨err₁,filled₁,s₁⟩,hlow,hrest⟩ := Option.bind_eq_some_iff.mp h
    rcases stops_or_goes hrest with ⟨rfl,hstop⟩ | ⟨herr,hgo⟩
    · cases hstop
      exact ⟨readBlocks_stop hlow _,fun _ => rfl⟩
    · obtain ⟨⟨err₂,filled₂,s₂⟩,hhigh,hlast⟩ := Option.bind_eq_some_iff.mp hgo
      have hread : ring.readAt env filled₁ (ring.size - ring.pRead) 0
        (blocLen - (ring.size - ring.pRead)) s₁ = some (err₂,filled₂,s₂) := hhigh
      rw [readBlocks_go hlow herr]
      rcases stops_or_goes hlast with ⟨rfl,hstop⟩ | ⟨herr₂,hend⟩
      · cases hstop
        exact ⟨readBlocks_last hread,fun _ => rfl⟩
      · cases hend
        exact ⟨readBlocks_last hread,fun hfails => absurd hfails herr₂⟩

/-- `Get` on a record: it stops in the header, or behind it with `pRead` changed, or it succeeds. -/
theorem get_stopsOrMoves {ret : Int} (hobtains : s.obtains env = true)
    (hcurrent : ring.current ≠ 0)
    (h : ring.get env stack buffer length s = some (ret,filled,ring',s')) :
    ((∃ memory s₁, ring.readBlocks env ring.headerReads stack (s.trylock env) =
        some (false,memory,s₁)) ∧ ret = -1 ∧ ring' = ring) ∨
      (∃ memory s₁, ring.readBlocks env ring.headerReads stack (s.trylock env) =
        some (true,memory,s₁)) ∧
      (ring'.pRead = ring.behindRead ∨ ring.Reads env stack buffer length (s.trylock env)) := by
  rw [SdCircBuff.get,if_pos hobtains,if_pos hcurrent] at h
  obtain ⟨⟨err,memory,split,s₁⟩,hheader,hrest⟩ := Option.bind_eq_some_iff.mp h
  obtain ⟨hreads,hend⟩ := readHeader_reads hheader
  simp only at hrest
  by_cases herr : err = -1
  · rw [if_pos herr] at hrest
    cases hrest
    rw [decide_eq_false (not_not.mpr herr)] at hreads
    exact .inl ⟨⟨_,_,hreads⟩,rfl,rfl⟩
  · rw [if_neg herr] at hrest
    rw [decide_eq_true herr] at hreads
    refine .inr ⟨⟨_,_,hreads⟩,?_⟩
    by_cases hrange : intAt memory ≤ 0 ∨ intAt memory ≥ 2048
    · rw [if_pos hrange] at hrest
      cases hrest
      exact .inl hend
    · rw [if_neg hrange] at hrest
      by_cases hlong : intAt memory > length
      · rw [if_pos hlong] at hrest
        cases hrest
        exact .inl hend
      · rw [if_neg hlong] at hrest
        obtain ⟨⟨err₂,filled₂,ring₂,s₂⟩,hdata,hlast⟩ := Option.bind_eq_some_iff.mp hrest
        obtain ⟨hdatas,hsame⟩ := getData_reads hdata
        simp only at hlast hdatas
        by_cases herr₂ : err₂ = -1
        · rw [if_pos herr₂] at hlast
          cases hlast
          rw [hsame herr₂]
          exact .inl hend
        · rw [decide_eq_true herr₂,hend] at hdatas
          exact .inr ⟨memory,s₁,hreads,by omega,by omega,_,_,hdatas⟩

theorem behindRead_ne (hring : ring.Seated region) (hsize : 8 < ring.size) :
    ring.behindRead ≠ ring.pRead := by
  have hint := hring.int
  have hpRead := hring.pRead
  rw [SdCircBuff.behindRead,SdCircBuff.headerEnd]
  by_cases hsplit : ring.behind ring.pRead < sizeofInt
  · rw [if_pos (decide_eq_true hsplit)]
    simp only [sizeofInt]
    omega
  · rw [if_neg (by rw [decide_eq_false hsplit]; decide)]
    split
    · rename_i hend
      simp only [SdCircBuff.behind,toUnsigned,sizeofInt] at hend
      omega
    · simp only [sizeofInt]
      omega

end Pyrn.Storage
