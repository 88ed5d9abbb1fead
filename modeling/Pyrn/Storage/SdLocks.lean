import Pyrn.Storage.SdCircBuff
import Pyrn.Storage.SdTransfer

/-!
# The depths of the two card mutexes

The mutex of the card keeps one acquisition for every command that the card has refused. `Read`
gives the storage mutex back once. `Write` gives it back behind every sector that it has
written, and behind a failed read in front of an offset.
-/

namespace Pyrn.Storage

open BlockCopy

/-- The block commands that the card has refused. -/
def refusals (trace : List DiskCommand) : Nat := trace.countP fun c => c.outcome = .refused

/-- The block commands that have failed, refused by the card or because another thread has it. -/
def failures (trace : List DiskCommand) : Nat := trace.countP fun c => c.outcome ≠ .done

/-- The sector writes that have failed. -/
def failedWrites (trace : List DiskCommand) : Nat :=
  trace.countP fun c => c.write = true ∧ c.outcome ≠ .done

/-- The commands behind which `Write` releases the storage mutex: a sector that has been written,
and a sector that could not be read. -/
def releases (trace : List DiskCommand) : Nat :=
  trace.countP fun c => (c.write = true ↔ c.outcome = .done)

/-- What every call keeps: the depth of the card's mutex grows with the refused commands, and
commands are only added. -/
structure Charged (before after : SdState) : Prop where
  card : after.cardAccess.depth + refusals before.trace =
    before.cardAccess.depth + refusals after.trace
  releases_le : releases before.trace ≤ releases after.trace
  failedWrites_le : failedWrites before.trace ≤ failedWrites after.trace
  failures_le : failedWrites after.trace + failures before.trace ≤
    failedWrites before.trace + failures after.trace

theorem Charged.refl (s : SdState) : Charged s s :=
  ⟨rfl,Nat.le_refl _,Nat.le_refl _,Nat.le_refl _⟩

theorem Charged.trans {s₁ s₂ s₃ : SdState} (hfirst : Charged s₁ s₂) (hnext : Charged s₂ s₃) :
    Charged s₁ s₃ := by
  have hcard₁ := hfirst.card
  have hcard₂ := hnext.card
  have hfailures₁ := hfirst.failures_le
  have hfailures₂ := hnext.failures_le
  exact ⟨by omega,Nat.le_trans hfirst.releases_le hnext.releases_le,
    Nat.le_trans hfirst.failedWrites_le hnext.failedWrites_le,by omega⟩

theorem Charged.unlock {s s' : SdState} (h : Charged s s') : Charged s s'.unlock :=
  ⟨h.card,h.releases_le,h.failedWrites_le,h.failures_le⟩

theorem charged_trylock (env : SdEnv) (s : SdState) : Charged s (s.trylock env) :=
  ⟨rfl,Nat.le_refl _,Nat.le_refl _,Nat.le_refl _⟩

/-- The mutex of the card is balanced exactly when none of the commands has been refused. -/
theorem Charged.balanced_iff {s s' : SdState} (h : Charged s s') :
    RecursiveMutex.Balanced s.cardAccess s'.cardAccess ↔ refusals s'.trace = refusals s.trace := by
  have hcard := h.card
  rw [RecursiveMutex.balanced_iff]
  omega

/-- Whether the card takes the command that comes behind `n` commands it has taken. -/
def SdState.takes (env : SdEnv) (s : SdState) (n : Nat) : Bool :=
  s.cardAccess.obtains (env.disk (s.trace.length + n)).mutexFree &&
    (env.disk (s.trace.length + n)).accepted

/-- A block command that the card takes. -/
structure Taken (env : SdEnv) (before after : SdState) : Prop where
  takes : before.takes env 0 = true
  next : ∀ n, after.takes env n = before.takes env (n + 1)
  charged : Charged before after
  access : after.access = before.access
  failures_eq : failures after.trace = failures before.trace

/-- A block command that fails. -/
structure Failed (env : SdEnv) (before after : SdState) : Prop where
  takes : before.takes env 0 = false
  charged : Charged before after
  access : after.access = before.access
  failures_lt : failures before.trace < failures after.trace

theorem takes_zero (env : SdEnv) (s : SdState) :
    s.takes env 0 = (s.obtainsCard env && (s.answer env).accepted) := rfl

/-- A command that is answered with success leaves the depth of the card's mutex. -/
theorem takes_next (env : SdEnv) (s s' : SdState) (hdepth : s'.cardAccess.depth =
    s.cardAccess.depth) (hlength : s'.trace.length = s.trace.length + 1) (n : Nat) :
    s'.takes env n = s.takes env (n + 1) := by
  rw [SdState.takes,SdState.takes,RecursiveMutex.obtains,RecursiveMutex.obtains,hdepth,hlength,
    Nat.add_assoc,Nat.add_comm 1 n]

variable (env : SdEnv)

/-- `disk_read` on every path. -/
theorem diskRead_cases (block : Int) (s : SdState) :
    (∃ bufftmp s', diskRead env block s = (some bufftmp,s') ∧ Taken env s s' ∧
      releases s'.trace = releases s.trace) ∨
    (∃ s', diskRead env block s = (none,s') ∧ Failed env s s' ∧
      releases s'.trace = releases s.trace + 1 ∧
      failedWrites s'.trace = failedWrites s.trace) := by
  unfold diskRead
  by_cases hobtains : s.obtainsCard env = true
  · rw [if_pos hobtains]
    by_cases haccepted : (s.answer env).accepted = true
    · rw [if_pos haccepted]
      refine .inl ⟨_,_,rfl,⟨?_,takes_next env s _ ?_ ?_,⟨?_,?_,?_,?_⟩,rfl,?_⟩,?_⟩ <;>
        simp [takes_zero,hobtains,haccepted,SdState.failed,refusals,releases,failedWrites,failures]
    · rw [if_neg haccepted]
      refine .inr ⟨_,rfl,⟨?_,⟨?_,?_,?_,?_⟩,rfl,?_⟩,?_,?_⟩ <;>
        simp [takes_zero,haccepted,SdState.failed,refusals,releases,failedWrites,failures]
      all_goals omega
  · rw [if_neg hobtains]
    refine .inr ⟨_,rfl,⟨?_,⟨?_,?_,?_,?_⟩,rfl,?_⟩,?_,?_⟩ <;>
      simp [takes_zero,hobtains,SdState.failed,refusals,releases,failedWrites,failures]

/-- `disk_write` on every path. -/
theorem diskWrite_cases (buffer : Bytes) (block : Int) (s : SdState) :
    (∃ s', diskWrite env buffer block s = (0,s') ∧ Taken env s s' ∧
      releases s'.trace = releases s.trace + 1) ∨
    (∃ s', diskWrite env buffer block s = (-1,s') ∧ Failed env s s' ∧
      releases s'.trace = releases s.trace ∧
      failedWrites s'.trace = failedWrites s.trace + 1) := by
  unfold diskWrite
  by_cases hobtains : s.obtainsCard env = true
  · rw [if_pos hobtains]
    by_cases haccepted : (s.answer env).accepted = true
    · rw [if_pos haccepted]
      refine .inl ⟨_,rfl,⟨?_,takes_next env s _ ?_ ?_,⟨?_,?_,?_,?_⟩,rfl,?_⟩,?_⟩ <;>
        simp [takes_zero,hobtains,haccepted,SdState.failed,refusals,releases,failedWrites,failures]
    · rw [if_neg haccepted]
      refine .inr ⟨_,rfl,⟨?_,⟨?_,?_,?_,?_⟩,rfl,?_⟩,?_,?_⟩ <;>
        simp [takes_zero,haccepted,SdState.failed,refusals,releases,failedWrites,failures]
      all_goals omega
  · rw [if_neg hobtains]
    refine .inr ⟨_,rfl,⟨?_,⟨?_,?_,?_,?_⟩,rfl,?_⟩,?_,?_⟩ <;>
      simp [takes_zero,hobtains,SdState.failed,refusals,releases,failedWrites,failures]
    omega

/-- `disk_read` and `disk_write` keep the mutex when the card refuses the command. -/
theorem disk_balanced_iff (buffer : Bytes) (block : Int) (s : SdState) :
    (RecursiveMutex.Balanced s.cardAccess (diskRead env block s).2.cardAccess ↔
      (s.obtainsCard env = true → (s.answer env).accepted = true)) ∧
    (RecursiveMutex.Balanced s.cardAccess (diskWrite env buffer block s).2.cardAccess ↔
      (s.obtainsCard env = true → (s.answer env).accepted = true)) := by
  simp only [RecursiveMutex.balanced_iff]
  unfold diskRead diskWrite
  by_cases hobtains : s.obtainsCard env = true <;>
    by_cases haccepted : (s.answer env).accepted = true <;>
    simp [hobtains,haccepted,SdState.failed]

variable {env}

/-- `Read` releases the storage mutex once, however its loop ends. -/
theorem readLoop_charged {start length : Int} (fuel : Nat) (v : LoopVars) (buffer : Bytes)
    (s : SdState) {err : Int} {buffer' : Bytes} {s' : SdState}
    (h : readLoop env start length fuel v buffer s = some (err,buffer',s')) :
    Charged s s' ∧ s'.access.depth = s.access.depth - 1 := by
  induction fuel generalizing v buffer s with
  | zero => cases h
  | succ fuel ih =>
    rw [readLoop] at h
    by_cases hmore : v.i < length
    · rw [if_pos hmore] at h
      rcases diskRead_cases env v.currSectorIndex s with
        ⟨bufftmp,s₁,hread,htaken,-⟩ | ⟨s₁,hread,hfailed,-⟩
      · rw [hread] at h
        obtain ⟨hrest,hdepth⟩ := ih _ _ s₁ h
        exact ⟨htaken.charged.trans hrest,by rw [hdepth,htaken.access]⟩
      · rw [hread] at h
        obtain ⟨-,h⟩ := Prod.mk.inj (Option.some.inj h)
        obtain ⟨-,rfl⟩ := Prod.mk.inj h
        refine ⟨hfailed.charged.unlock,?_⟩
        rw [SdState.unlock,RecursiveMutex.depth_unlock,hfailed.access]
    · rw [if_neg hmore] at h
      obtain ⟨-,h⟩ := Prod.mk.inj (Option.some.inj h)
      obtain ⟨-,rfl⟩ := Prod.mk.inj h
      exact ⟨(Charged.refl s).unlock,RecursiveMutex.depth_unlock _⟩

/-- The commands of a turn of `Write` in front of its sector write. -/
def LoopVars.reads (v : LoopVars) : Nat := if v.offset ≠ 0 ∧ v.i = 0 then 1 else 0

/-- A turn of `Write` that ends the call at the read in front of the offset. -/
structure Stops (env : SdEnv) (v : LoopVars) (before after : SdState) : Prop where
  reads : v.reads = 1
  takes : before.takes env 0 = false
  charged : Charged before after
  access : after.access = before.access
  releases_eq : releases after.trace = releases before.trace + 1
  failedWrites_eq : failedWrites after.trace = failedWrites before.trace
  failures_lt : failures before.trace < failures after.trace

/-- A turn of `Write` that ends the call at its sector write. -/
structure Breaks (env : SdEnv) (v : LoopVars) (before after : SdState) : Prop where
  reads : v.reads = 1 → before.takes env 0 = true
  takes : before.takes env v.reads = false
  charged : Charged before after
  access : after.access = before.access
  releases_eq : releases after.trace = releases before.trace
  failedWrites_eq : failedWrites after.trace = failedWrites before.trace + 1

/-- A turn of `Write` that writes its sector. -/
structure Writes (env : SdEnv) (v : LoopVars) (before after : SdState) : Prop where
  reads : v.reads = 1 → before.takes env 0 = true
  takes : before.takes env v.reads = true
  next : ∀ n, after.takes env n = before.takes env (n + v.reads + 1)
  charged : Charged before after
  access : after.access = before.access
  releases_eq : releases after.trace = releases before.trace + 1
  failures_eq : failures after.trace = failures before.trace

variable (env) in
/-- One turn of `Write` on every path. -/
theorem writeLoop_cases (buffer : Bytes) (start : Int) {length : Int} (fuel : Nat) {v : LoopVars}
    (s : SdState) (hmore : v.i < length) :
    (∃ s', writeLoop env buffer start length (fuel + 1) v s = some (-1,s'.unlock) ∧
      Stops env v s s') ∨
    (∃ s', writeLoop env buffer start length (fuel + 1) v s = some (-1,s') ∧
      Breaks env v s s') ∨
    ∃ s', writeLoop env buffer start length (fuel + 1) v s =
        writeLoop env buffer start length fuel (v.next length) s'.unlock ∧ Writes env v s s' := by
  rw [writeLoop,if_pos hmore]
  have hbase : (∃ base s', writeBase env v s = (some base,s') ∧ Charged s s' ∧
      s'.access = s.access ∧ releases s'.trace = releases s.trace ∧
      failures s'.trace = failures s.trace ∧ (v.reads = 1 → s.takes env 0 = true) ∧
      ∀ n, s'.takes env n = s.takes env (n + v.reads)) ∨
      ∃ s', writeBase env v s = (none,s') ∧ Stops env v s s' := by
    unfold writeBase LoopVars.reads
    split
    · rename_i hreads
      rcases diskRead_cases env v.currSectorIndex s with ⟨bufftmp,s₁,hread,htaken,hreleases⟩ |
        ⟨s₁,hread,hfailed,hreleases,hwrites⟩
      · exact .inl ⟨_,_,hread,htaken.charged,htaken.access,hreleases,htaken.failures_eq,
          fun _ => htaken.takes,htaken.next⟩
      · exact .inr ⟨_,hread,if_pos hreads,hfailed.takes,hfailed.charged,hfailed.access,hreleases,
          hwrites,hfailed.failures_lt⟩
    · exact .inl ⟨_,_,rfl,Charged.refl s,rfl,rfl,rfl,
        fun hone => absurd hone (by decide),fun _ => rfl⟩
  rcases hbase with ⟨base,s₁,hread,hcharged,haccess,hreleases,hfailures,hreads,hnext⟩ |
    ⟨s₁,hread,hstops⟩
  · rw [hread]
    simp only
    have htakes : s.takes env v.reads = s₁.takes env 0 := by rw [hnext,Nat.zero_add]
    rcases diskWrite_cases env
        (copy base v.offset buffer (start + v.i) (nCpy length v.i v.offset)) v.currSectorIndex s₁
      with ⟨s₂,hwrite,htaken,hreleases₂⟩ | ⟨s₂,hwrite,hfailed,hreleases₂,hwrites⟩
    · rw [hwrite]
      simp only
      rw [if_neg (by decide)]
      refine .inr (.inr ⟨s₂,rfl,hreads,htakes.trans htaken.takes,fun n => ?_,
        hcharged.trans htaken.charged,htaken.access.trans haccess,by omega,
        htaken.failures_eq.trans hfailures⟩)
      rw [htaken.next,hnext,Nat.add_right_comm]
    · rw [hwrite]
      simp only
      rw [if_pos trivial]
      have hle := hcharged.failedWrites_le
      have hfailures_le := hcharged.failures_le
      exact .inr (.inl ⟨s₂,rfl,hreads,htakes.trans hfailed.takes,hcharged.trans hfailed.charged,
        hfailed.access.trans haccess,by omega,by omega⟩)
  · rw [hread]
    exact .inl ⟨s₁,rfl,hstops⟩

/-- The loop of `Write` releases the storage mutex once for every sector written and for a failed
read in front. -/
theorem writeLoop_charged {buffer : Bytes} {start length : Int} (fuel : Nat) (v : LoopVars)
    (s : SdState) {err : Int} {s' : SdState}
    (h : writeLoop env buffer start length fuel v s = some (err,s')) :
    Charged s s' ∧
      s'.access.depth = s.access.depth - (releases s'.trace - releases s.trace) := by
  induction fuel generalizing v s with
  | zero => cases h
  | succ fuel ih =>
    by_cases hmore : v.i < length
    · rcases writeLoop_cases env buffer start fuel s hmore with ⟨s₁,hloop,hstops⟩ |
        ⟨s₁,hloop,hbreaks⟩ | ⟨s₁,hloop,hwrites⟩
      · rw [hloop] at h
        obtain ⟨-,rfl⟩ := Prod.mk.inj (Option.some.inj h)
        have hreleases := hstops.releases_eq
        refine ⟨hstops.charged.unlock,?_⟩
        rw [SdState.unlock,RecursiveMutex.depth_unlock,hstops.access,hreleases]
        omega
      · rw [hloop] at h
        obtain ⟨-,rfl⟩ := Prod.mk.inj (Option.some.inj h)
        exact ⟨hbreaks.charged,by rw [hbreaks.access,hbreaks.releases_eq]; omega⟩
      · rw [hloop] at h
        obtain ⟨hrest,hdepth⟩ := ih _ _ h
        have hreleases := hwrites.releases_eq
        have hmono := hrest.releases_le
        simp only [SdState.unlock,RecursiveMutex.depth_unlock,hwrites.access] at hdepth hmono
        exact ⟨hwrites.charged.unlock.trans hrest,by omega⟩
    · rw [writeLoop,if_neg hmore] at h
      obtain ⟨-,rfl⟩ := Prod.mk.inj (Option.some.inj h)
      exact ⟨Charged.refl s,by omega⟩

theorem Writes.failedWrites_eq {v : LoopVars} {s s' : SdState} (h : Writes env v s s') :
    failedWrites s'.trace = failedWrites s.trace := by
  have hfailures := h.failures_eq
  have hle := h.charged.failedWrites_le
  have hadd := h.charged.failures_le
  omega

/-- How the loop of `Write` ends when there are bytes to write: at the read in front of the
offset, at the first sector, behind the only sector, at the second sector, or later. -/
inductive WriteEnds (env : SdEnv) (length : Int) (v : LoopVars) (s s' : SdState) : Prop
  | stopped (reads : v.reads = 1) (takes : s.takes env 0 = false)
      (releases_eq : releases s'.trace = releases s.trace + 1)
      (failedWrites_eq : failedWrites s'.trace = failedWrites s.trace)
  | broken (reads : v.reads = 1 → s.takes env 0 = true) (takes : s.takes env v.reads = false)
      (releases_eq : releases s'.trace = releases s.trace)
      (failedWrites_eq : failedWrites s'.trace = failedWrites s.trace + 1)
  | single (reads : v.reads = 1 → s.takes env 0 = true) (takes : s.takes env v.reads = true)
      (fits : v.offset + (length - v.i) ≤ 512)
      (releases_eq : releases s'.trace = releases s.trace + 1)
      (failedWrites_eq : failedWrites s'.trace = failedWrites s.trace)
  | halted (reads : v.reads = 1 → s.takes env 0 = true) (takes : s.takes env v.reads = true)
      (crosses : 512 < v.offset + (length - v.i)) (second : s.takes env (v.reads + 1) = false)
      (releases_eq : releases s'.trace = releases s.trace + 1)
      (failedWrites_eq : failedWrites s'.trace = failedWrites s.trace + 1)
  | several (reads : v.reads = 1 → s.takes env 0 = true) (takes : s.takes env v.reads = true)
      (crosses : 512 < v.offset + (length - v.i)) (second : s.takes env (v.reads + 1) = true)
      (releases_lt : releases s.trace + 1 < releases s'.trace)

theorem writeLoop_outcome {buffer : Bytes} {start length : Int} {fuel : Nat} {v : LoopVars}
    {s s' : SdState} {err : Int}
    (h : writeLoop env buffer start length fuel v s = some (err,s')) (hmore : v.i < length)
    (hoffset : 0 ≤ v.offset ∧ v.offset < 512) (hfirst : v.offset = 0 ∨ v.i = 0) :
    WriteEnds env length v s s' := by
  cases fuel with
  | zero => cases h
  | succ fuel =>
    obtain ⟨hpos,hle,hcopied⟩ := nCpy_spec hmore hoffset hfirst
    rcases writeLoop_cases env buffer start fuel s hmore with ⟨s₁,hloop,hstops⟩ |
      ⟨s₁,hloop,hbreaks⟩ | ⟨s₁,hloop,hwrites⟩
    · rw [hloop] at h
      cases h
      exact .stopped hstops.reads hstops.takes hstops.releases_eq hstops.failedWrites_eq
    · rw [hloop] at h
      cases h
      exact .broken hbreaks.reads hbreaks.takes hbreaks.releases_eq hbreaks.failedWrites_eq
    · rw [hloop] at h
      have hreleases₁ := hwrites.releases_eq
      have hfailed₁ := hwrites.failedWrites_eq
      cases fuel with
      | zero => cases h
      | succ fuel =>
        by_cases hrest : (v.next length).i < length
        · -- a second sector, which begins at its first byte
          have hcrosses : 512 < v.offset + (length - v.i) := by
            simp only [LoopVars.next] at hrest
            omega
          have hreads : (v.next length).reads = 0 := if_neg fun hne => hne.1 rfl
          have hsecond : s₁.unlock.takes env 0 = s.takes env (v.reads + 1) :=
            (hwrites.next 0).trans (by rw [Nat.zero_add])
          rcases writeLoop_cases env buffer start fuel s₁.unlock hrest with ⟨s₂,hloop₂,hstops⟩ |
            ⟨s₂,hloop₂,hbreaks⟩ | ⟨s₂,hloop₂,hwrites₂⟩
          · exact absurd hstops.reads (by rw [hreads]; decide)
          · rw [hloop₂] at h
            cases h
            have htakes := hbreaks.takes
            rw [hreads,hsecond] at htakes
            exact .halted hwrites.reads hwrites.takes hcrosses htakes
              (hbreaks.releases_eq.trans hreleases₁)
              (hbreaks.failedWrites_eq.trans (congrArg (· + 1) hfailed₁))
          · rw [hloop₂] at h
            have htakes := hwrites₂.takes
            have hreleases₂ : releases s₂.trace = releases s₁.trace + 1 := hwrites₂.releases_eq
            have hmono : releases s₂.trace ≤ releases s'.trace :=
              (writeLoop_charged _ _ _ h).1.releases_le
            rw [hreads,hsecond] at htakes
            exact .several hwrites.reads hwrites.takes hcrosses htakes (by omega)
        · rw [writeLoop,if_neg hrest] at h
          cases h
          simp only [LoopVars.next] at hrest
          exact .single hwrites.reads hwrites.takes (by omega) hreleases₁ hfailed₁

/-- The sectors that a transfer touches. -/
def sectors (offset length : Int) : Nat := ((offset + length + 511) / 512).toNat

/-- When no command fails, the loop of `Write` releases once for every sector. -/
theorem writeLoop_unfailed {buffer : Bytes} {start length : Int} (fuel : Nat) (v : LoopVars)
    (s : SdState) {err : Int} {s' : SdState}
    (h : writeLoop env buffer start length fuel v s = some (err,s')) (hlength : v.i ≤ length)
    (hoffset : 0 ≤ v.offset ∧ v.offset < 512) (hfirst : v.offset = 0 ∨ v.i = 0)
    (hbegun : v.offset = 0 ∨ v.i < length) (hsame : failures s'.trace = failures s.trace) :
    releases s'.trace = releases s.trace + sectors v.offset (length - v.i) ∧
      (v.err ≠ -1 ∨ v.i < length → err ≠ -1) := by
  induction fuel generalizing v s with
  | zero => cases h
  | succ fuel ih =>
    by_cases hmore : v.i < length
    · obtain ⟨hpos,hle,hcopied⟩ := nCpy_spec hmore hoffset hfirst
      rcases writeLoop_cases env buffer start fuel s hmore with ⟨s₁,hloop,hstops⟩ |
        ⟨s₁,hloop,hbreaks⟩ | ⟨s₁,hloop,hwrites⟩
      · rw [hloop] at h
        cases h
        have hlt := hstops.failures_lt
        simp only [SdState.unlock] at hsame
        omega
      · rw [hloop] at h
        cases h
        have heq := hbreaks.failedWrites_eq
        have hadd := hbreaks.charged.failures_le
        omega
      · rw [hloop] at h
        have hfailures : failures s₁.unlock.trace = failures s.trace := hwrites.failures_eq
        have hreleases : releases s₁.unlock.trace = releases s.trace + 1 := hwrites.releases_eq
        obtain ⟨hrest,herr⟩ := ih (v.next length) s₁.unlock h
          (by simp only [LoopVars.next]; omega) (by simp only [LoopVars.next]; omega) (.inl rfl)
          (.inl rfl) (by omega)
        refine ⟨?_,fun _ => herr (.inl (by simp only [LoopVars.next]; decide))⟩
        rw [hrest,hreleases]
        simp only [sectors,LoopVars.next]
        omega
    · rw [writeLoop,if_neg hmore] at h
      cases h
      refine ⟨?_,fun hbegan => hbegan.resolve_right hmore⟩
      have hnone : sectors v.offset (length - v.i) = 0 := by
        unfold sectors
        omega
      rw [hnone,Nat.add_zero]

variable (env) in
/-- The owner of the mutex obtains it again. -/
theorem obtains_of_pos {s : SdState} (hpos : 0 < s.access.depth) : s.obtains env = true :=
  RecursiveMutex.obtains_of_pos hpos _

variable (env) in
theorem depth_trylock (s : SdState) :
    (s.trylock env).access.depth = if s.obtains env = true then s.access.depth + 1
      else s.access.depth := by
  rw [SdState.trylock,SdState.obtains]
  split
  · rename_i hobtains
    rw [RecursiveMutex.trylock_of_obtains hobtains,RecursiveMutex.depth_acquire]
  · rename_i hobtains
    rw [RecursiveMutex.trylock_of_not_obtains hobtains]

/-- `Read` keeps the depth of the storage mutex on every path. -/
theorem read_charged {region : SdStorage} {buffer buffer' : Bytes}
    {start index length offset err : Int} {s s' : SdState}
    (h : region.read env buffer start index length offset s = some (err,buffer',s')) :
    Charged s s' ∧ s'.access.depth = s.access.depth := by
  have hdepth := depth_trylock env s
  rw [SdStorage.read] at h
  split at h
  · rename_i hobtains
    rw [if_pos hobtains] at hdepth
    obtain ⟨hcharged,hloop⟩ := readLoop_charged _ _ _ _ h
    exact ⟨(charged_trylock env s).trans hcharged,by omega⟩
  · rename_i hobtains
    rw [if_neg hobtains] at hdepth
    obtain ⟨-,h⟩ := Prod.mk.inj (Option.some.inj h)
    obtain ⟨-,rfl⟩ := Prod.mk.inj h
    exact ⟨charged_trylock env s,hdepth⟩

/-- `Write` on every path. -/
theorem write_charged {region : SdStorage} {buffer : Bytes}
    {start index length offset err : Int} {s s' : SdState}
    (h : region.write env buffer start index length offset s = some (err,s')) :
    Charged s s' ∧ s'.access.depth = if s.obtains env = true then
      s.access.depth + 1 - (releases s'.trace - releases s.trace) else s.access.depth := by
  have hdepth := depth_trylock env s
  rw [SdStorage.write] at h
  split at h
  · rename_i hobtains
    rw [if_pos hobtains] at hdepth ⊢
    obtain ⟨hcharged,hloop⟩ := writeLoop_charged _ _ _ h
    exact ⟨(charged_trylock env s).trans hcharged,by rw [hloop,hdepth]; rfl⟩
  · rename_i hobtains
    rw [if_neg hobtains] at hdepth ⊢
    obtain ⟨-,rfl⟩ := Prod.mk.inj (Option.some.inj h)
    exact ⟨charged_trylock env s,hdepth⟩

/-- The bytes that are left of a request for `Write`. -/
def SdStorage.cut (region : SdStorage) (index length offset : Int) : Int :=
  if region.room index offset < length then (region.nSectors - index) * 512 else length

/-- What it takes for `Write` to give the storage mutex back: the read in front of an offset
fails, or the first sector is written, and no second one when there is an acquisition to lose. -/
def SdState.Repays (env : SdEnv) (s : SdState) (length offset : Int) : Prop :=
  let reads := if offset ≠ 0 then 1 else 0
  0 < length ∧ (offset ≠ 0 ∧ s.takes env 0 = false ∨ s.takes env reads = true ∧
    (s.access.depth = 0 ∨ offset + length ≤ 512 ∨ s.takes env (reads + 1) = false))

/-- `Write` keeps the storage mutex balanced exactly when it does not obtain it or repays it. -/
theorem write_balanced_iff {region : SdStorage} {buffer : Bytes}
    {start index length offset err : Int} {s s' : SdState} (hoffset : 0 ≤ offset ∧ offset < 512)
    (h : region.write env buffer start index length offset s = some (err,s')) :
    RecursiveMutex.Balanced s.access s'.access ↔
      (s.obtains env = true → s.Repays env (region.cut index length offset) offset) := by
  obtain ⟨-,hdepth⟩ := write_charged h
  rw [RecursiveMutex.balanced_iff]
  by_cases hobtains : s.obtains env = true
  · rw [if_pos hobtains] at hdepth
    simp only [hobtains,true_imp_iff,SdState.Repays]
    rw [SdStorage.write,if_pos hobtains] at h
    change writeLoop env buffer start (region.cut index length offset)
      (turns (region.cut index length offset)) _ _ = _ at h
    generalize region.cut index length offset = cut at h ⊢
    have hbegun : releases (s.trylock env).trace = releases s.trace := rfl
    have hreads : (region.begin index offset).reads = if offset ≠ 0 then 1 else 0 := by
      simp [LoopVars.reads,SdStorage.begin]
    have hfront : offset ≠ 0 ↔ (if offset ≠ 0 then 1 else 0) = 1 := by
      split <;> simp_all
    generalize (if offset ≠ 0 then 1 else 0) = front at hreads hfront ⊢
    by_cases hpos : 0 < cut
    · cases writeLoop_outcome h hpos hoffset (.inr rfl) with
      | stopped reads takes releases_eq =>
        rw [hreads] at reads
        exact iff_of_true (by omega) ⟨hpos,.inl ⟨hfront.mpr reads,takes⟩⟩
      | broken reads takes releases_eq =>
        rw [hreads] at reads takes
        refine iff_of_false (by omega) ?_
        rintro ⟨-,⟨hne,hfails⟩ | ⟨htakes,-⟩⟩
        · exact absurd (hfails.symm.trans (reads (hfront.mp hne))) Bool.false_ne_true
        · exact absurd (takes.symm.trans htakes) Bool.false_ne_true
      | single reads takes fits releases_eq =>
        rw [hreads] at takes
        have hfits : offset + cut ≤ 512 := by simpa only [SdStorage.begin,Int.sub_zero] using fits
        exact iff_of_true (by omega) ⟨hpos,.inr ⟨takes,.inr (.inl hfits)⟩⟩
      | halted reads takes crosses second releases_eq =>
        rw [hreads] at takes second
        exact iff_of_true (by omega) ⟨hpos,.inr ⟨takes,.inr (.inr second)⟩⟩
      | several reads takes crosses second releases_lt =>
        rw [hreads] at reads takes second
        have hcrosses : 512 < offset + cut := by
          simpa only [SdStorage.begin,Int.sub_zero] using crosses
        constructor
        · intro hbalanced
          exact ⟨hpos,.inr ⟨takes,.inl (by omega)⟩⟩
        · rintro ⟨-,⟨hne,hfails⟩ | ⟨-,hzero | hfits | hhalts⟩⟩
          · exact absurd (hfails.symm.trans (reads (hfront.mp hne))) Bool.false_ne_true
          · omega
          · omega
          · exact absurd (hhalts.symm.trans second) Bool.false_ne_true
    · have hnone : ¬(region.begin index offset).i < cut := hpos
      rw [turns,writeLoop,if_neg hnone] at h
      obtain ⟨-,rfl⟩ := Prod.mk.inj (Option.some.inj h)
      exact iff_of_false (by omega) fun hrepays => hpos hrepays.1
  · rw [if_neg hobtains] at hdepth
    simp [hobtains,hdepth]

/-- `Clear` keeps the depth of the storage mutex on every path. -/
theorem clear_charged (index : Int) (s : SdState) :
    Charged s (SdStorage.clear env index s).2 ∧
      (SdStorage.clear env index s).2.access.depth = s.access.depth := by
  have hdepth := depth_trylock env s
  unfold SdStorage.clear
  split
  · rename_i hobtains
    rw [if_pos hobtains] at hdepth
    have hturn : ∃ err s₁, diskWrite env (fun _ => 0) index (s.trylock env) = (err,s₁) ∧
        Charged (s.trylock env) s₁ ∧ s₁.access = (s.trylock env).access := by
      rcases diskWrite_cases env (fun _ => 0) index (s.trylock env) with ⟨s₁,hwrite,htaken,-⟩ |
        ⟨s₁,hwrite,hfailed,-⟩
      · exact ⟨_,s₁,hwrite,htaken.charged,htaken.access⟩
      · exact ⟨_,s₁,hwrite,hfailed.charged,hfailed.access⟩
    obtain ⟨err,s₁,hwrite,hcharged,haccess⟩ := hturn
    rw [hwrite]
    refine ⟨((charged_trylock env s).trans hcharged).unlock,?_⟩
    simp only [SdState.unlock,RecursiveMutex.depth_unlock,haccess]
    omega
  · rename_i hobtains
    rw [if_neg hobtains] at hdepth
    exact ⟨charged_trylock env s,hdepth⟩

/-- What keeps the storage mutex and charges the card's: every call but `Write` and `Put`. -/
def Steady (before after : SdState) : Prop :=
  Charged before after ∧ after.access.depth = before.access.depth

theorem Steady.trans {s₁ s₂ s₃ : SdState} (hfirst : Steady s₁ s₂) (hnext : Steady s₂ s₃) :
    Steady s₁ s₃ := ⟨hfirst.1.trans hnext.1,hnext.2.trans hfirst.2⟩

/-- A steady stretch between an acquisition and a release. -/
theorem Steady.release {s s' : SdState} (h : Steady (s.trylock env) s')
    (hobtains : s.obtains env = true) : Steady s s'.unlock := by
  have hdepth := depth_trylock env s
  rw [if_pos hobtains] at hdepth
  refine ⟨((charged_trylock env s).trans h.1).unlock,?_⟩
  rw [SdState.unlock,RecursiveMutex.depth_unlock,h.2,hdepth]
  rfl

theorem steady_of_not_obtains {s : SdState} (hobtains : ¬s.obtains env = true) :
    Steady s (s.trylock env) := by
  have hdepth := depth_trylock env s
  rw [if_neg hobtains] at hdepth
  exact ⟨charged_trylock env s,hdepth⟩

section Ring

variable {ring ring' : SdCircBuff} {s s' : SdState} {err : Int}

theorem readHeader_steady {blocLen memory : Bytes} {split : Bool}
    (h : ring.readHeader env blocLen s = some (err,memory,split,s')) : Steady s s' := by
  rw [SdCircBuff.readHeader] at h
  split at h
  · obtain ⟨⟨err₁,memory₁,s₁⟩,hread,h⟩ := Option.bind_eq_some_iff.mp h
    cases h
    exact read_charged hread
  · obtain ⟨⟨err₁,low,s₁⟩,hlow,h⟩ := Option.bind_eq_some_iff.mp h
    have hfirst : Steady s s₁ := read_charged hlow
    simp only at h
    split at h
    · cases h
      exact hfirst
    · obtain ⟨⟨err₂,memory₂,s₂⟩,hhigh,h⟩ := Option.bind_eq_some_iff.mp h
      cases h
      exact hfirst.trans (read_charged hhigh)

theorem getData_steady {buffer buffer' : Bytes} {blocLen : Int}
    (h : ring.getData env buffer blocLen s = some (err,buffer',ring',s')) : Steady s s' := by
  rw [SdCircBuff.getData] at h
  split at h
  · obtain ⟨⟨err₁,filled,s₁⟩,hread,h⟩ := Option.bind_eq_some_iff.mp h
    have hfirst : Steady s s₁ := read_charged hread
    simp only at h
    split at h <;> cases h <;> exact hfirst
  · obtain ⟨⟨err₁,low,s₁⟩,hlow,h⟩ := Option.bind_eq_some_iff.mp h
    have hfirst : Steady s s₁ := read_charged hlow
    simp only at h
    split at h
    · cases h
      exact hfirst
    · obtain ⟨⟨err₂,filled,s₂⟩,hhigh,h⟩ := Option.bind_eq_some_iff.mp h
      have hnext : Steady s₁ s₂ := read_charged hhigh
      simp only at h
      split at h <;> cases h <;> exact hfirst.trans hnext

/-- `Get` keeps the depth of the storage mutex on every path. -/
theorem get_steady {stack buffer buffer' : Bytes} {length ret : Int}
    (h : ring.get env stack buffer length s = some (ret,buffer',ring',s')) : Steady s s' := by
  rw [SdCircBuff.get] at h
  split at h
  · rename_i hobtains
    split at h
    · obtain ⟨⟨err₁,memory,split,s₁⟩,hheader,h⟩ := Option.bind_eq_some_iff.mp h
      have hfirst := readHeader_steady hheader
      simp only at h
      split at h
      · cases h
        exact hfirst.release hobtains
      · split at h
        · cases h
          exact hfirst.release hobtains
        · split at h
          · cases h
            exact hfirst.release hobtains
          · obtain ⟨⟨err₂,filled,ring₂,s₂⟩,hdata,h⟩ := Option.bind_eq_some_iff.mp h
            have hnext := getData_steady hdata
            simp only at h
            split at h <;> cases h <;> exact (hfirst.trans hnext).release hobtains
    · cases h
      exact Steady.release ⟨Charged.refl _,rfl⟩ hobtains
  · rename_i hobtains
    cases h
    exact steady_of_not_obtains hobtains

/-- `Probe` keeps the depth of the storage mutex on every path. -/
theorem probe_steady {ret : Int} (h : ring.probe env s = some (ret,ring',s')) : Steady s s' := by
  rw [SdCircBuff.probe] at h
  split at h
  · rename_i hobtains
    split at h
    · obtain ⟨⟨err₁,memory,split,s₁⟩,hheader,h⟩ := Option.bind_eq_some_iff.mp h
      have hfirst := readHeader_steady hheader
      simp only at h
      split at h <;> cases h <;> exact hfirst.release hobtains
    · cases h
      exact Steady.release ⟨Charged.refl _,rfl⟩ hobtains
  · rename_i hobtains
    cases h
    exact steady_of_not_obtains hobtains

end Ring

end Pyrn.Storage
