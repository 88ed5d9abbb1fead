import Pyrn.Storage.SdLocks
import Pyrn.Storage.SdRegion

/-!
# What a request does to the card, whatever the card answers

A `Write` that returns zero has written its bytes and cleared what is behind them in their last
sector, if the card has kept the data; one that fails has changed nothing outside its bytes. A
`Read` reads sectors of its range and no others, and returns their bytes unless it fails.
-/

namespace Pyrn.Storage

open BlockCopy

variable {env : SdEnv}

/-- The card has kept the data of the sector writes between two states. -/
def Landed (env : SdEnv) (before after : SdState) : Prop :=
  ∀ n, before.trace.length ≤ n → n < after.trace.length → (env.disk n).stored = true

theorem Landed.first {s₁ s₂ s₃ : SdState} (h : Landed env s₁ s₃)
    (hnext : s₂.trace.length ≤ s₃.trace.length) : Landed env s₁ s₂ :=
  fun n hlow hhigh => h n hlow (Nat.lt_of_lt_of_le hhigh hnext)

theorem Landed.last {s₁ s₂ s₃ : SdState} (h : Landed env s₁ s₃)
    (hfirst : s₁.trace.length ≤ s₂.trace.length) : Landed env s₂ s₃ :=
  fun n hlow hhigh => h n (Nat.le_trans hfirst hlow) hhigh

/-- What a write of `n` bytes at `p` with `fill` zeros behind them may do. -/
structure WriteEffect (env : SdEnv) (buffer : Bytes) (start p n fill err : Int)
    (before after : SdState) : Prop where
  later : before.trace.length ≤ after.trace.length
  frame : ∀ x, x < p ∨ p + n + fill ≤ x → after.card x = before.card x
  failed : err = -1 → ∀ x, x < p ∨ p + n ≤ x → after.card x = before.card x
  exact : err ≠ -1 → Landed env before after →
    after.card = written before.card p buffer start n fill

/-- `disk_read` on every path. -/
theorem diskRead_effect {block : Int} {s s' : SdState} {answer : Option Bytes}
    (h : diskRead env block s = (answer,s')) :
    s'.card = s.card ∧ (∃ outcome, s'.trace = ⟨false,block,outcome⟩ :: s.trace) ∧
      ∀ bufftmp, answer = some bufftmp → bufftmp = sector s.card block := by
  unfold diskRead at h
  split at h
  · split at h <;> cases h
    · exact ⟨rfl,⟨_,rfl⟩,fun bufftmp heq => (Option.some.inj heq).symm⟩
    · exact ⟨rfl,⟨_,rfl⟩,fun bufftmp heq => nomatch heq⟩
  · cases h
    exact ⟨rfl,⟨_,rfl⟩,fun bufftmp heq => nomatch heq⟩

/-- `disk_write` on every path. -/
theorem diskWrite_effect {buffer : Bytes} {block err : Int} {s s' : SdState}
    (h : diskWrite env buffer block s = (err,s')) :
    s'.trace.length = s.trace.length + 1 ∧ (err = -1 → s'.card = s.card) ∧
      (s'.card = s.card ∨ s'.card = copy s.card (block * 512) buffer 0 512) ∧
      (err ≠ -1 → Landed env s s' → s'.card = copy s.card (block * 512) buffer 0 512) := by
  unfold diskWrite at h
  split at h
  · split at h <;> cases h
    · refine ⟨rfl,fun hfails => absurd hfails (by decide),?_,fun _ hlanded => ?_⟩
      · simp only
        split
        · exact .inr rfl
        · exact .inl rfl
      · have hstored : (s.answer env).stored = true :=
          hlanded _ (Nat.le_refl _) (Nat.lt_succ_self _)
        simp only [hstored,if_true]
    · exact ⟨rfl,fun _ => rfl,.inl rfl,fun hne => absurd rfl hne⟩
  · cases h
    exact ⟨rfl,fun _ => rfl,.inl rfl,fun hne => absurd rfl hne⟩

/-- `writeBase` on every path: the sector in front of an offset, or zeros. -/
theorem writeBase_effect {v : LoopVars} {s s' : SdState} {answer : Option Bytes}
    (h : writeBase env v s = (answer,s')) (hfirst : v.offset = 0 ∨ v.i = 0) :
    s'.card = s.card ∧ s.trace.length ≤ s'.trace.length ∧ ∀ base, answer = some base →
      base = if v.offset ≠ 0 then sector s.card v.currSectorIndex else fun _ => 0 := by
  unfold writeBase at h
  split at h
  · rename_i hfront
    obtain ⟨hcard,⟨outcome,htrace⟩,hsector⟩ := diskRead_effect h
    refine ⟨hcard,by rw [htrace]; exact Nat.le_succ _,fun base heq => ?_⟩
    rw [if_pos hfront.1]
    exact hsector base heq
  · cases h
    refine ⟨rfl,Nat.le_refl _,fun base heq => ?_⟩
    rw [if_neg (by omega)]
    exact (Option.some.inj heq).symm

/-- What one turn of `Write` may do to the card when the turn in front has left it as it is. -/
theorem turn_written {v : LoopVars} {base buffer card : Bytes} {start n : Int}
    (hbase : base = if v.offset ≠ 0 then sector card v.currSectorIndex else fun _ => 0)
    (hoffset : 0 ≤ v.offset) (hn : 0 ≤ n) (hfit : v.offset + n ≤ 512) :
    copy card (v.currSectorIndex * 512) (copy base v.offset buffer start n) 0 512 =
      written card (v.currSectorIndex * 512 + v.offset) buffer start n
        (if v.offset ≠ 0 then 0 else 512 - n) := by
  by_cases hzero : v.offset = 0
  · rw [hbase,if_neg (by omega),if_neg (by omega),hzero,Int.add_zero,copy_cleared hn (by omega)]
  · rw [hbase,if_pos hzero,if_pos hzero,written_of_fill_eq_zero rfl,copy_sector hoffset hfit]

/-- One turn of `Write`: the call ends with the card as it was, or the sector is written. -/
theorem writeLoop_turn {buffer : Bytes} {start length err : Int} {fuel : Nat} {v : LoopVars}
    {s s' : SdState} (h : writeLoop env buffer start length (fuel + 1) v s = some (err,s'))
    (hmore : v.i < length) (hoffset : 0 ≤ v.offset ∧ v.offset < 512)
    (hfirst : v.offset = 0 ∨ v.i = 0) :
    (err = -1 ∧ s'.card = s.card ∧ s.trace.length ≤ s'.trace.length) ∨
    ∃ s₁, writeLoop env buffer start length fuel (v.next length) s₁ = some (err,s') ∧
      s.trace.length ≤ s₁.trace.length ∧
      (s₁.card = s.card ∨ s₁.card = written s.card (v.currSectorIndex * 512 + v.offset) buffer
        (start + v.i) (nCpy length v.i v.offset)
        (if v.offset ≠ 0 then 0 else 512 - nCpy length v.i v.offset)) ∧
      (Landed env s s₁ → s₁.card = written s.card (v.currSectorIndex * 512 + v.offset) buffer
        (start + v.i) (nCpy length v.i v.offset)
        (if v.offset ≠ 0 then 0 else 512 - nCpy length v.i v.offset)) := by
  obtain ⟨hpos,hle,hcases⟩ := nCpy_spec hmore hoffset hfirst
  rw [writeLoop,if_pos hmore] at h
  cases hread : writeBase env v s with
  | mk answer s₁ =>
    rw [hread] at h
    obtain ⟨hcard,hlater,hbase⟩ := writeBase_effect hread hfirst
    cases answer with
    | none =>
      cases h
      exact .inl ⟨rfl,hcard,hlater⟩
    | some base =>
      simp only at h
      cases hwrite : diskWrite env
          (copy base v.offset buffer (start + v.i) (nCpy length v.i v.offset))
          v.currSectorIndex s₁ with
      | mk err₂ s₂ =>
        obtain ⟨htrace,hfailed,hmaybe,hkept⟩ := diskWrite_effect hwrite
        have hturn := @turn_written v base buffer s.card (start + v.i) (nCpy length v.i v.offset)
          (hbase base rfl) hoffset.1 (Int.le_of_lt hpos) (by omega)
        rw [hwrite] at h
        simp only at h
        split at h
        · rename_i herr
          cases h
          exact .inl ⟨herr,(hfailed herr).trans hcard,by omega⟩
        · rename_i herr
          rw [hcard,hturn] at hmaybe hkept
          refine .inr ⟨s₂.unlock,h,?_,hmaybe,fun hlanded => hkept herr ?_⟩
          · simp only [SdState.unlock]
            omega
          · have hsecond : Landed env s s₂ := hlanded
            exact hsecond.last hlater

theorem writeLoop_done {buffer : Bytes} {start length err : Int} {fuel : Nat} {v : LoopVars}
    {s s' : SdState} (h : writeLoop env buffer start length fuel v s = some (err,s'))
    (hdone : ¬v.i < length) : err = v.err ∧ s' = s := by
  cases fuel with
  | zero => cases h
  | succ fuel =>
    rw [writeLoop,if_neg hdone] at h
    cases h
    exact ⟨rfl,rfl⟩

theorem writeEffect_of_same {buffer : Bytes} {start p n fill err : Int} {s s' : SdState}
    (hcard : s'.card = s.card) (hlater : s.trace.length ≤ s'.trace.length)
    (hexact : err ≠ -1 → n + fill ≤ 0) (hpos : 0 ≤ n ∧ 0 ≤ fill) :
    WriteEffect env buffer start p n fill err s s' := by
  refine ⟨hlater,fun x _ => congrFun hcard x,fun _ x _ => congrFun hcard x,fun hne _ => ?_⟩
  have hnone := hexact hne
  rw [hcard,written_of_fill_eq_zero (by omega),copy_of_nonpos (by omega)]

/-- A turn of `Write` that has written its sector and the turns behind it are one write. -/
theorem WriteEffect.behind {buffer : Bytes} {block offset start n rest err : Int}
    {s s₁ s' : SdState} (hn : 0 < n) (hrest : 0 ≤ rest)
    (hcases : rest = 0 ∧ offset + n ≤ 512 ∨ offset + n = 512) (hoffset : 0 ≤ offset)
    (hlater : s.trace.length ≤ s₁.trace.length)
    (hmaybe : s₁.card = s.card ∨ s₁.card = written s.card (block * 512 + offset) buffer start n
      (if offset ≠ 0 then 0 else 512 - n))
    (hkept : Landed env s s₁ → s₁.card = written s.card (block * 512 + offset) buffer start n
      (if offset ≠ 0 then 0 else 512 - n))
    (heffect : WriteEffect env buffer (start + n) ((block + 1) * 512) rest (zeroFill 0 rest) err
      s₁ s')
    (hended : rest = 0 → err ≠ -1) :
    WriteEffect env buffer start (block * 512 + offset) (n + rest) (zeroFill offset (n + rest)) err
      s s' := by
  have hturn {x : Int} (hx : x < block * 512 + offset ∨
      block * 512 + offset + n + (if offset ≠ 0 then 0 else 512 - n) ≤ x) :
      s₁.card x = s.card x := by
    have hfill : 0 ≤ if offset ≠ 0 then 0 else 512 - n := by split <;> omega
    rcases hmaybe with hcard | hcard
    · rw [hcard]
    · rw [hcard,written_outside hx (Int.le_of_lt hn) hfill]
  have hwhole : rest ≠ 0 → (if offset ≠ 0 then 0 else 512 - n) = 0 ∧
      zeroFill offset (n + rest) = zeroFill 0 rest := by
    intro hmore
    unfold zeroFill
    split_ifs <;> omega
  have hlast : rest = 0 → zeroFill 0 rest = 0 ∧
      zeroFill offset (n + rest) = if offset ≠ 0 then 0 else 512 - n := by
    intro hnone
    unfold zeroFill
    split_ifs <;> omega
  have hbehind := zeroFill_nonneg 0 rest
  refine ⟨Nat.le_trans hlater heffect.later,fun x hx => ?_,fun herr x hx => ?_,
    fun hne hlanded => ?_⟩
  · by_cases hmore : rest = 0
    · obtain ⟨hzero,hfill⟩ := hlast hmore
      rw [heffect.frame x (by omega),hturn (by omega)]
    · obtain ⟨hzero,hfill⟩ := hwhole hmore
      rw [heffect.frame x (by omega),hturn (by omega)]
  · have hmore : rest ≠ 0 := fun hnone => hended hnone herr
    obtain ⟨hzero,-⟩ := hwhole hmore
    rw [heffect.failed herr x (by omega),hturn (by omega)]
  · rw [heffect.exact hne (hlanded.last hlater),hkept (hlanded.first heffect.later),
      written_written hn hrest hcases]

/-- The loop of `Write` from any turn on. -/
theorem writeLoop_effect {buffer : Bytes} {start length err : Int} (fuel : Nat) (v : LoopVars)
    (s : SdState) {s' : SdState}
    (h : writeLoop env buffer start length fuel v s = some (err,s')) (hlength : v.i ≤ length)
    (hoffset : 0 ≤ v.offset ∧ v.offset < 512) (hfirst : v.offset = 0 ∨ v.i = 0) :
    WriteEffect env buffer (start + v.i) (v.currSectorIndex * 512 + v.offset) (length - v.i)
      (zeroFill v.offset (length - v.i)) err s s' := by
  induction fuel generalizing v s with
  | zero => cases h
  | succ fuel ih =>
    have hfill := zeroFill_nonneg v.offset (length - v.i)
    by_cases hmore : v.i < length
    · obtain ⟨hpos,hle,hcases⟩ := nCpy_spec hmore hoffset hfirst
      rcases writeLoop_turn h hmore hoffset hfirst with ⟨herr,hcard,hlater⟩ |
        ⟨s₁,hloop,hlater,hmaybe,hkept⟩
      · exact writeEffect_of_same hcard hlater (fun hne => absurd herr hne) ⟨by omega,hfill⟩
      · have hrest := ih (v.next length) s₁ hloop (by simp only [LoopVars.next]; omega)
          (by simp only [LoopVars.next]; omega) (.inl rfl)
        have hended : length - v.i - nCpy length v.i v.offset = 0 → err ≠ -1 := by
          intro hnone herr
          have hdone := (writeLoop_done hloop (by simp only [LoopVars.next]; omega)).1
          exact absurd (hdone.symm.trans herr) (by simp only [LoopVars.next]; decide)
        simp only [LoopVars.next,Int.add_zero,← Int.add_assoc,← Int.sub_sub] at hrest
        have hall : length - v.i =
            nCpy length v.i v.offset + (length - v.i - nCpy length v.i v.offset) := by omega
        rw [hall]
        exact WriteEffect.behind hpos (by omega) (by omega) hoffset.1 hlater hmaybe hkept hrest
          hended
    · obtain ⟨rfl,rfl⟩ := writeLoop_done h hmore
      refine writeEffect_of_same rfl (Nat.le_refl _) (fun _ => ?_) ⟨by omega,hfill⟩
      unfold zeroFill
      split <;> omega

/-- A request for `Write` that fits in the region. -/
theorem write_effect {region : SdStorage} {buffer : Bytes} {start index length offset err : Int}
    {s s' : SdState} (hoffset : 0 ≤ offset ∧ offset < 512) (hlength : 0 ≤ length)
    (hfit : length ≤ region.room index offset)
    (h : region.write env buffer start index length offset s = some (err,s')) :
    WriteEffect env buffer start ((region.iSectorStart + index) * 512 + offset) length
      (zeroFill offset length) err s s' := by
  rw [SdStorage.write] at h
  split at h
  · simp only [if_neg (Int.not_lt.mpr hfit)] at h
    have heffect := writeLoop_effect _ _ _ h hlength hoffset (.inr rfl)
    simp only [SdStorage.begin,Int.add_zero,Int.sub_zero] at heffect
    exact ⟨heffect.later,heffect.frame,heffect.failed,heffect.exact⟩
  · cases h
    exact writeEffect_of_same rfl (Nat.le_refl _) (fun hne => absurd rfl hne)
      ⟨hlength,zeroFill_nonneg _ _⟩

theorem written_eq_copy_iff {card buffer : Bytes} {p start n fill : Int} :
    written card p buffer start n fill = copy card p buffer start n ↔
      ∀ x, p + n ≤ x → x < p + n + fill → card x = 0 := by
  constructor
  · intro heq x hlow hhigh
    have hbyte := congrFun heq x
    rw [written,copy_inside hlow hhigh,copy_outside (.inr hlow)] at hbyte
    exact hbyte.symm
  · intro hzero
    funext x
    rw [written]
    by_cases hfill : p + n ≤ x ∧ x < p + n + fill
    · rw [copy_inside hfill.1 hfill.2,copy_outside (.inr hfill.1),hzero x hfill.1 hfill.2]
    · rw [copy_outside (d := p + n) (by omega)]

/-- The sectors that hold some of the `n` bytes from `p` on. -/
def Overlaps (block p n : Int) : Prop := block * 512 < p + n ∧ p < (block + 1) * 512

/-- The commands between two states are all of a kind. -/
def Issued (kind : DiskCommand → Prop) (before after : SdState) : Prop :=
  ∃ commands, after.trace = commands ++ before.trace ∧ ∀ command ∈ commands, kind command

theorem Issued.refl (kind : DiskCommand → Prop) (s : SdState) : Issued kind s s :=
  ⟨[],rfl,fun _ hmem => nomatch hmem⟩

theorem Issued.first {kind : DiskCommand → Prop} {s₁ s₂ s₃ : SdState} {command : DiskCommand}
    (htrace : s₂.trace = command :: s₁.trace) (hkind : kind command) (hrest : Issued kind s₂ s₃) :
    Issued kind s₁ s₃ := by
  obtain ⟨commands,hcommands,hall⟩ := hrest
  refine ⟨commands ++ [command],?_,fun other hmem => ?_⟩
  · rw [hcommands,htrace,List.append_assoc]
    rfl
  · rcases List.mem_append.mp hmem with hmem | hmem
    · exact hall other hmem
    · rw [List.mem_singleton.mp hmem]
      exact hkind

/-- What a read of `n` bytes at `p` does: it reads sectors that overlap them, and unless it fails
it copies them. -/
structure ReadEffect (buffer : Bytes) (start p n err : Int) (buffer' : Bytes)
    (before after : SdState) : Prop where
  card : after.card = before.card
  issued : Issued (fun command => command.write = false ∧ Overlaps command.block p n) before after
  exact : err ≠ -1 → buffer' = copy buffer start before.card p n

/-- The loop of `Read` from any turn on. -/
theorem readLoop_effect {start length err : Int} (fuel : Nat) (v : LoopVars) (buffer : Bytes)
    (s : SdState) {buffer' : Bytes} {s' : SdState}
    (h : readLoop env start length fuel v buffer s = some (err,buffer',s'))
    (hlength : v.i ≤ length) (hoffset : 0 ≤ v.offset ∧ v.offset < 512)
    (hfirst : v.offset = 0 ∨ v.i = 0) :
    ReadEffect buffer (start + v.i) (v.currSectorIndex * 512 + v.offset) (length - v.i) err buffer'
      s s' := by
  induction fuel generalizing v buffer s with
  | zero => cases h
  | succ fuel ih =>
    rw [readLoop] at h
    by_cases hmore : v.i < length
    · obtain ⟨hpos,hle,hcases⟩ := nCpy_spec hmore hoffset hfirst
      have hhere : Overlaps v.currSectorIndex (v.currSectorIndex * 512 + v.offset)
          (length - v.i) := by
        unfold Overlaps
        omega
      rw [if_pos hmore] at h
      cases hread : diskRead env v.currSectorIndex s with
      | mk answer s₁ =>
        obtain ⟨hcard,⟨outcome,htrace⟩,hsector⟩ := diskRead_effect hread
        rw [hread] at h
        cases answer with
        | none =>
          cases h
          refine ⟨hcard,?_,fun hne => absurd rfl hne⟩
          exact Issued.first htrace ⟨rfl,hhere⟩ (Issued.refl _ s₁)
        | some bufftmp =>
          have hrest := ih (v.next length) _ s₁ h (by simp only [LoopVars.next]; omega)
            (by simp only [LoopVars.next]; omega) (.inl rfl)
          simp only [LoopVars.next,Int.add_zero] at hrest
          generalize hn : nCpy length v.i v.offset = n at hpos hle hcases hrest
          refine ⟨hrest.card.trans hcard,.first htrace ⟨rfl,hhere⟩ ?_,fun hne => ?_⟩
          · obtain ⟨commands,hcommands,hall⟩ := hrest.issued
            refine ⟨commands,hcommands,fun command hmem => ?_⟩
            obtain ⟨hkind,hoverlaps⟩ := hall command hmem
            unfold Overlaps at hoverlaps ⊢
            exact ⟨hkind,by omega⟩
          · rw [hrest.exact hne,hcard,hsector bufftmp rfl,copy_from_sector hoffset.1 (by omega)]
            rcases hcases with ⟨hall,-⟩ | hfull
            · rw [copy_of_nonpos (n := length - (v.i + n)) (by omega),hall]
            · have hnext : (v.currSectorIndex + 1) * 512 =
                  v.currSectorIndex * 512 + v.offset + n := by omega
              have hall : length - v.i = n + (length - (v.i + n)) := by omega
              rw [hnext,← Int.add_assoc,copy_copy (Int.le_of_lt hpos) (by omega),← hall]
    · rw [if_neg hmore] at h
      cases h
      exact ⟨rfl,Issued.refl _ s,fun _ => (copy_of_nonpos (by omega)).symm⟩

/-- When the card takes the command for every sector, the loop of `Read` does not fail. -/
theorem readLoop_taken {start length err : Int} (fuel : Nat) (v : LoopVars) (buffer : Bytes)
    (s : SdState) {buffer' : Bytes} {s' : SdState}
    (h : readLoop env start length fuel v buffer s = some (err,buffer',s'))
    (hoffset : 0 ≤ v.offset ∧ v.offset < 512) (hfirst : v.offset = 0 ∨ v.i = 0)
    (htakes : ∀ k < sectors v.offset (length - v.i), s.takes env k = true) :
    err = if v.i < length then 0 else v.err := by
  induction fuel generalizing v buffer s with
  | zero => cases h
  | succ fuel ih =>
    rw [readLoop] at h
    by_cases hmore : v.i < length
    · obtain ⟨hpos,hle,hcases⟩ := nCpy_spec hmore hoffset hfirst
      have hcount : sectors v.offset (length - v.i) =
          sectors 0 (length - (v.i + nCpy length v.i v.offset)) + 1 := by
        unfold sectors
        omega
      rw [hcount] at htakes
      rw [if_pos hmore] at h ⊢
      rcases diskRead_cases env v.currSectorIndex s with
        ⟨bufftmp,s₁,hread,htaken,-⟩ | ⟨s₁,hread,hfailed,-⟩
      · rw [hread] at h
        have hrest := ih (v.next length) _ s₁ h (by simp only [LoopVars.next]; omega) (.inl rfl)
          fun k hk => (htaken.next k).trans (htakes (k + 1) (Nat.succ_lt_succ hk))
        rw [hrest]
        exact next_err v length
      · exact absurd ((htakes 0 (Nat.succ_pos _)).symm.trans hfailed.takes) (by decide)
    · rw [if_neg hmore] at h ⊢
      cases h
      rfl

/-- A request for `Read` that fits in the region. -/
theorem read_effect {region : SdStorage} {buffer buffer' : Bytes}
    {start index length offset err : Int} {s s' : SdState} (hoffset : 0 ≤ offset ∧ offset < 512)
    (hlength : 0 ≤ length) (hfit : length ≤ region.room index offset)
    (h : region.read env buffer start index length offset s = some (err,buffer',s')) :
    ReadEffect buffer start ((region.iSectorStart + index) * 512 + offset) length err buffer'
      s s' := by
  rw [SdStorage.read] at h
  split at h
  · simp only [if_neg (Int.not_lt.mpr hfit)] at h
    have heffect := readLoop_effect _ _ _ _ h hlength hoffset (.inr rfl)
    simp only [SdStorage.begin,Int.add_zero,Int.sub_zero] at heffect
    exact ⟨heffect.card,heffect.issued,heffect.exact⟩
  · cases h
    exact ⟨rfl,Issued.refl _ s,fun hne => absurd rfl hne⟩

/-- Another thread holds the storage mutex. -/
def occupiedEnv : SdEnv := ⟨fun _ => ⟨true,true,true⟩,fun _ => false⟩

end Pyrn.Storage
