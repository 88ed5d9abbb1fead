import Pyrn.Can.DiagCalculator

/-!
# Searching the command list

`FirstCommand` and `NextCommand` walk over the stored commands by the sizes they find. The walk
is told here with the offsets at which it looks at a header, so that it can be said when it stays
inside the commands that were copied last.
-/

namespace Pyrn.Can

open LittleEndian

namespace CANDiagCalculator

/-- The type in the header at an offset. -/
def typeAt (memory : List UInt8) (p : Nat) : Nat := ofBytes ((memory.drop p).take 2)

/-- The size in the header at an offset. -/
def sizeAt (memory : List UInt8) (p : Nat) : Nat := (memory.getD (p + 6) 0).toNat

/-- A header that a search looks at; it is passed when the search goes on by its size. -/
structure Inspection where
  offset : Nat
  type : Nat
  size : Nat
  passed : Bool
  deriving DecidableEq, Repr

def inspection (memory : List UInt8) (p : Nat) (passed : Bool) : Inspection :=
  ⟨p,typeAt memory p,sizeAt memory p,passed⟩

/-- The headers that the loop of `NextCommand` looks at from an offset on, and the offset of the
command it finds. -/
def searchFrom (memory : List UInt8) (type : Nat) :
    Nat → Nat → Option (List Inspection × Option Nat)
  | 0, _ => none
  | rounds + 1, p =>
      if p + 7 ≤ memory.length then
        if typeAt memory p = type then some ([inspection memory p false],some p)
        else if typeAt memory p = CommandType.cmdEnd.code then
          some ([inspection memory p false],none)
        else (searchFrom memory type rounds (p + 7 + sizeAt memory p)).map fun result =>
          (inspection memory p true :: result.1,result.2)
      else none

/-- `NextCommand` on the command at an offset. -/
def nextSearch (memory : List UInt8) (p type : Nat) : Option (List Inspection × Option Nat) :=
  if p + 7 ≤ memory.length then
    (searchFrom memory type (memory.length - (p + 7)) (p + 7 + sizeAt memory p)).map fun result =>
      (inspection memory p true :: result.1,result.2)
  else none

/-- `FirstCommand`. -/
def firstSearch (memory : List UInt8) (type : Nat) : Option (List Inspection × Option Nat) :=
  if 7 ≤ memory.length then
    if typeAt memory 0 = type then some ([inspection memory 0 false],some 0)
    else nextSearch memory 0 type
  else none

/-- The command that a search has found. -/
def found (memory : List UInt8) (result : List Inspection × Option Nat) :
    Option CANDiagCommand :=
  result.2.bind fun p => commandAt (memory.drop p)

/-- The header lies in the storage, its type among the copied bytes, and with it the whole command
when it is one or is passed like one. -/
def Inspection.Allowed (cmdLen : Nat) (header : Inspection) : Prop :=
  header.offset + 7 ≤ canDiagCmdStorage ∧ header.offset + 2 ≤ cmdLen ∧
    (header.type ≠ CommandType.cmdEnd.code ∨ header.passed = true →
      header.offset + 7 + header.size ≤ cmdLen)

/-- A search ends and looks only at allowed headers. -/
def SafeSearch (cmdLen : Nat) (result : Option (List Inspection × Option Nat)) : Prop :=
  ∃ trace p, result = some (trace,p) ∧ ∀ header ∈ trace, header.Allowed cmdLen

/-- The offsets of the commands that searches for the asked types return. -/
inductive Returned (memory : List UInt8) (asked : UInt16 → Prop) : Nat → Prop
  | first (type : UInt16) (trace : List Inspection) (p : Nat) : asked type →
      firstSearch memory type.toNat = some (trace,some p) → Returned memory asked p
  | next (type : UInt16) (trace : List Inspection) (p q : Nat) : Returned memory asked p →
      asked type → nextSearch memory p type.toNat = some (trace,some q) → Returned memory asked q

/-- `SetData` ends, and when the calculator is ready then so does every search for the asked
types, from the first command or from one that was found, without leaving the copied bytes. -/
def CommandListSafe (old : CANDiagCalculator) (buff : Memory) (asked : UInt16 → Prop) : Prop :=
  ∃ result, old.setData buff = some result ∧ (result.object.ready = true →
    (∀ type, asked type →
        SafeSearch (cmdLenOf buff) (firstSearch result.object.memory type.toNat)) ∧
      ∀ type p, asked type → Returned result.object.memory asked p →
        SafeSearch (cmdLenOf buff) (nextSearch result.object.memory p type.toNat))

/-- Whole commands inside the copied bytes lead from an offset to an end marker inside them,
whose header lies in the storage. -/
inductive EndsInside (memory : List UInt8) (cmdLen : Nat) : Nat → Prop
  | marker (p : Nat) : typeAt memory p = CommandType.cmdEnd.code → p + 2 ≤ cmdLen →
      p + 7 ≤ canDiagCmdStorage → EndsInside memory cmdLen p
  | command (p : Nat) : typeAt memory p ≠ CommandType.cmdEnd.code →
      p + 7 + sizeAt memory p ≤ cmdLen →
      EndsInside memory cmdLen (p + 7 + sizeAt memory p) → EndsInside memory cmdLen p

/-- Behind the element at an offset, whatever its type, the list ends inside. -/
def EndsBehind (memory : List UInt8) (cmdLen p : Nat) : Prop :=
  p + 7 + sizeAt memory p ≤ cmdLen ∧ EndsInside memory cmdLen (p + 7 + sizeAt memory p)

/-- A command of more than eight bytes comes before the first end marker. -/
inductive Oversized (memory : List UInt8) : Nat → Prop
  | here (p : Nat) : p + 7 ≤ memory.length → typeAt memory p ≠ CommandType.cmdEnd.code →
      8 < sizeAt memory p → Oversized memory p
  | later (p : Nat) : p + 7 ≤ memory.length → typeAt memory p ≠ CommandType.cmdEnd.code →
      sizeAt memory p ≤ 8 → Oversized memory (p + 7 + sizeAt memory p) → Oversized memory p

section Headers

variable {memory : List UInt8} {p : Nat}

theorem commandAt_drop (hp : p + 7 ≤ memory.length) : ∃ idCmd,
    commandAt (memory.drop p) =
      some ⟨typeAt memory p,idCmd,sizeAt memory p,memory.drop (p + 7)⟩ := by
  have hlength : (memory.drop p).length = memory.length - p := List.length_drop
  match hdrop : memory.drop p with
  | t₀ :: t₁ :: i₀ :: i₁ :: i₂ :: i₃ :: size :: rest =>
    have htype : typeAt memory p = ofBytes [t₀,t₁] := by
      rw [typeAt,hdrop]
      rfl
    have hsize : sizeAt memory p = size.toNat := by
      have hget : memory.getD (p + 6) 0 = (memory.drop p).getD 6 0 := by
        rw [List.getD_eq_getElem?_getD,List.getD_eq_getElem?_getD,List.getElem?_drop]
      rw [sizeAt,hget,hdrop]
      rfl
    have hrest : memory.drop (p + 7) = rest := by
      rw [← List.drop_drop,hdrop]
      rfl
    rw [htype,hsize,hrest]
    exact ⟨ofBytes [i₀,i₁,i₂,i₃],rfl⟩
  | [] | [_] | [_,_] | [_,_,_] | [_,_,_,_] | [_,_,_,_,_] | [_,_,_,_,_,_] =>
    rw [hdrop] at hlength
    simp at hlength
    omega

theorem commandAt_drop_of_lt (hp : ¬p + 7 ≤ memory.length) : commandAt (memory.drop p) = none := by
  have hlength : (memory.drop p).length = memory.length - p := List.length_drop
  match hdrop : memory.drop p with
  | t₀ :: t₁ :: i₀ :: i₁ :: i₂ :: i₃ :: size :: rest =>
    rw [hdrop] at hlength
    simp at hlength
    omega
  | [] | [_] | [_,_] | [_,_,_] | [_,_,_,_] | [_,_,_,_,_] | [_,_,_,_,_,_] => rfl

end Headers

section Searches

variable {memory : List UInt8} {type : Nat}

/-- The search finds what the loop of `NextCommand` finds. -/
theorem searchFrom_found (rounds p : Nat) :
    (searchFrom memory type rounds p).map (found memory) =
      nextFrom type rounds (memory.drop p) := by
  induction rounds generalizing p with
  | zero => rfl
  | succ rounds ih =>
    rw [searchFrom,nextFrom]
    by_cases hp : p + 7 ≤ memory.length
    · obtain ⟨idCmd,hcommand⟩ := commandAt_drop hp
      rw [if_pos hp,hcommand]
      simp only [Option.bind_eq_bind,Option.bind_some]
      by_cases htype : typeAt memory p = type
      · rw [if_pos htype,if_pos htype,Option.map_some,found,Option.bind_some,hcommand]
        rfl
      · rw [if_neg htype,if_neg htype]
        by_cases hend : typeAt memory p = CommandType.cmdEnd.code
        · rw [if_pos hend,if_pos hend]
          rfl
        · rw [if_neg hend,if_neg hend,Option.map_map,List.drop_drop,← ih]
          rfl
    · rw [if_neg hp,commandAt_drop_of_lt hp]
      rfl

theorem nextSearch_found {p : Nat} {command : CANDiagCommand}
    (hcommand : commandAt (memory.drop p) = some command) :
    (nextSearch memory p type).map (found memory) = nextCommand command type := by
  by_cases hp : p + 7 ≤ memory.length
  · obtain ⟨idCmd,hhere⟩ := commandAt_drop hp
    cases hcommand.symm.trans hhere
    rw [nextSearch,if_pos hp,Option.map_map,nextCommand,List.length_drop,List.drop_drop,
      ← searchFrom_found]
    rfl
  · rw [commandAt_drop_of_lt hp] at hcommand
    cases hcommand

theorem firstSearch_found (st : CANDiagCalculator) :
    (firstSearch st.memory type).map (found st.memory) = st.firstCommand type := by
  rw [firstSearch,firstCommand]
  by_cases hp : 7 ≤ st.memory.length
  · obtain ⟨idCmd,hcommand⟩ := @commandAt_drop st.memory 0 (by omega)
    have hfirst := hcommand
    rw [List.drop_zero] at hfirst
    rw [if_pos hp,hfirst]
    simp only [Option.bind_eq_bind,Option.bind_some]
    by_cases htype : typeAt st.memory 0 = type
    · rw [if_pos htype,if_pos htype,Option.map_some,found,Option.bind_some,hcommand]
      rfl
    · rw [if_neg htype,if_neg htype,nextSearch_found hcommand]
  · have hfirst := @commandAt_drop_of_lt st.memory 0 (by omega)
    rw [List.drop_zero] at hfirst
    rw [if_neg hp,hfirst]
    rfl

theorem searchFrom_of_le {rounds p : Nat} (hp : p + 7 ≤ memory.length) :
    searchFrom memory type (rounds + 1) p =
      if typeAt memory p = type then some ([inspection memory p false],some p)
      else if typeAt memory p = CommandType.cmdEnd.code then
        some ([inspection memory p false],none)
      else (searchFrom memory type rounds (p + 7 + sizeAt memory p)).map fun result =>
        (inspection memory p true :: result.1,result.2) := by
  rw [searchFrom,if_pos hp]

theorem nextSearch_of_le {p : Nat} (hp : p + 7 ≤ memory.length) :
    nextSearch memory p type =
      (searchFrom memory type (memory.length - (p + 7)) (p + 7 + sizeAt memory p)).map
        fun result => (inspection memory p true :: result.1,result.2) := by
  rw [nextSearch,if_pos hp]

theorem safeSearch_some {cmdLen : Nat} {trace : List Inspection} {p : Option Nat} :
    SafeSearch cmdLen (some (trace,p)) ↔ ∀ header ∈ trace, header.Allowed cmdLen := by
  simp [SafeSearch]

/-- A search that passes a header goes on safely exactly when the header may be passed. -/
theorem safeSearch_passes {cmdLen p : Nat} {result : Option (List Inspection × Option Nat)} :
    SafeSearch cmdLen (result.map fun result => (inspection memory p true :: result.1,result.2)) ↔
      (inspection memory p true).Allowed cmdLen ∧ SafeSearch cmdLen result := by
  cases result with
  | none => simp [SafeSearch]
  | some result =>
    obtain ⟨trace,q⟩ := result
    rw [Option.map_some,safeSearch_some,safeSearch_some,List.forall_mem_cons]

end Searches

section Inside

variable {memory : List UInt8} {cmdLen type p : Nat}

theorem allowed_passed_iff (hcmdLen : cmdLen < canDiagCmdStorage) :
    (inspection memory p true).Allowed cmdLen ↔ p + 7 + sizeAt memory p ≤ cmdLen := by
  simp only [Inspection.Allowed,inspection]
  constructor
  · exact fun hallowed => hallowed.2.2 (Or.inr trivial)
  · intro hinside
    exact ⟨by omega,by omega,fun _ => hinside⟩

theorem allowed_command_iff (hcmdLen : cmdLen < canDiagCmdStorage)
    (htype : typeAt memory p ≠ CommandType.cmdEnd.code) :
    (inspection memory p false).Allowed cmdLen ↔ p + 7 + sizeAt memory p ≤ cmdLen := by
  simp only [Inspection.Allowed,inspection]
  constructor
  · exact fun hallowed => hallowed.2.2 (Or.inl htype)
  · intro hinside
    exact ⟨by omega,by omega,fun _ => hinside⟩

theorem allowed_marker_iff (htype : typeAt memory p = CommandType.cmdEnd.code) :
    (inspection memory p false).Allowed cmdLen ↔ p + 7 ≤ canDiagCmdStorage ∧ p + 2 ≤ cmdLen := by
  simp [Inspection.Allowed,inspection,htype]

/-- A search over a list that ends inside is safe, and the list ends inside behind what it
finds. -/
theorem EndsInside.search (hends : EndsInside memory cmdLen p)
    (hmemory : canDiagCmdStorage ≤ memory.length) (hcmdLen : cmdLen < canDiagCmdStorage)
    (htype : type ≠ CommandType.cmdEnd.code) {rounds : Nat}
    (hrounds : memory.length ≤ p + rounds) : ∃ trace q,
      searchFrom memory type rounds p = some (trace,q) ∧
        (∀ header ∈ trace, header.Allowed cmdLen) ∧ ∀ r ∈ q, EndsBehind memory cmdLen r := by
  induction hends generalizing rounds with
  | marker p hend hinside hstorage =>
    obtain ⟨rounds,rfl⟩ : ∃ k, rounds = k + 1 := ⟨rounds - 1,by omega⟩
    have hother : typeAt memory p ≠ type := fun heq => htype (heq.symm.trans hend)
    rw [searchFrom_of_le (by omega),if_neg hother,if_pos hend]
    refine ⟨_,_,rfl,?_,nofun⟩
    simpa using (allowed_marker_iff hend).mpr ⟨hstorage,hinside⟩
  | command p hcommand hinside hbehind ih =>
    obtain ⟨rounds,rfl⟩ : ∃ k, rounds = k + 1 := ⟨rounds - 1,by omega⟩
    rw [searchFrom_of_le (by omega),if_neg hcommand]
    by_cases hhere : typeAt memory p = type
    · rw [if_pos hhere]
      refine ⟨_,_,rfl,?_,?_⟩
      · simpa using (allowed_command_iff hcmdLen hcommand).mpr hinside
      · simpa using ⟨hinside,hbehind⟩
    · obtain ⟨trace,q,hsearch,htrace,hq⟩ := ih (show memory.length ≤ _ + rounds by omega)
      rw [if_neg hhere,hsearch]
      refine ⟨_,_,rfl,?_,hq⟩
      rw [List.forall_mem_cons]
      exact ⟨(allowed_passed_iff hcmdLen).mpr hinside,htrace⟩

theorem EndsBehind.nextSearch (hbehind : EndsBehind memory cmdLen p)
    (hmemory : canDiagCmdStorage ≤ memory.length) (hcmdLen : cmdLen < canDiagCmdStorage)
    (htype : type ≠ CommandType.cmdEnd.code) : ∃ trace q,
      nextSearch memory p type = some (trace,q) ∧ (∀ header ∈ trace, header.Allowed cmdLen) ∧
        ∀ r ∈ q, EndsBehind memory cmdLen r := by
  have hinside := hbehind.1
  obtain ⟨trace,q,hsearch,htrace,hq⟩ := hbehind.2.search hmemory hcmdLen htype
    (show memory.length ≤ _ + (memory.length - (p + 7)) by omega)
  rw [nextSearch_of_le (by omega),hsearch]
  refine ⟨_,_,rfl,?_,hq⟩
  rw [List.forall_mem_cons]
  exact ⟨(allowed_passed_iff hcmdLen).mpr hinside,htrace⟩

theorem EndsBehind.firstSearch (hbehind : EndsBehind memory cmdLen 0)
    (hmemory : canDiagCmdStorage ≤ memory.length) (hcmdLen : cmdLen < canDiagCmdStorage)
    (htype : type ≠ CommandType.cmdEnd.code) : ∃ trace q,
      firstSearch memory type = some (trace,q) ∧ (∀ header ∈ trace, header.Allowed cmdLen) ∧
        ∀ r ∈ q, EndsBehind memory cmdLen r := by
  have hinside := hbehind.1
  rw [CANDiagCalculator.firstSearch,if_pos (by omega)]
  by_cases hhere : typeAt memory 0 = type
  · rw [if_pos hhere]
    refine ⟨_,_,rfl,?_,?_⟩
    · have hcommand : typeAt memory 0 ≠ CommandType.cmdEnd.code := by rwa [hhere]
      simpa using (allowed_command_iff hcmdLen hcommand).mpr hinside
    · simpa using hbehind
  · rw [if_neg hhere]
    exact hbehind.nextSearch hmemory hcmdLen htype

theorem code_ne_cmdEnd {asked : UInt16 → Prop} (hend : ¬asked 0) {type : UInt16}
    (hasked : asked type) : type.toNat ≠ CommandType.cmdEnd.code := by
  intro hcode
  have hzero : type = 0 := UInt16.toNat_inj.mp hcode
  exact hend (hzero ▸ hasked)

/-- All that searches return lies in front of the end of the list. -/
theorem Returned.endsBehind {asked : UInt16 → Prop} (hreturned : Returned memory asked p)
    (hbehind : EndsBehind memory cmdLen 0) (hmemory : canDiagCmdStorage ≤ memory.length)
    (hcmdLen : cmdLen < canDiagCmdStorage) (hend : ¬asked 0) : EndsBehind memory cmdLen p := by
  induction hreturned with
  | first type trace p hasked hfirst =>
    obtain ⟨trace',q,hsearch,-,hq⟩ := hbehind.firstSearch hmemory hcmdLen
      (code_ne_cmdEnd hend hasked)
    cases hfirst.symm.trans hsearch
    exact hq p rfl
  | next type trace p q _ hasked hnext ih =>
    obtain ⟨trace',r,hsearch,-,hr⟩ := ih.nextSearch hmemory hcmdLen
      (code_ne_cmdEnd hend hasked)
    cases hnext.symm.trans hsearch
    exact hr q rfl

/-- Where a search for an asked type is safe, with all that goes on from what it returns, the
type is not that of the end marker, and the list ends inside. -/
theorem endsInside_of_safe {asked : UInt16 → Prop} {type : UInt16} (hasked : asked type)
    (hcmdLen : cmdLen < canDiagCmdStorage)
    (hnext : ∀ p, Returned memory asked p → SafeSearch cmdLen (nextSearch memory p type.toNat))
    {rounds : Nat} (hsafe : SafeSearch cmdLen (searchFrom memory type.toNat rounds p))
    (hfound : ∀ trace q, searchFrom memory type.toNat rounds p = some (trace,some q) →
      Returned memory asked q) :
    type ≠ 0 ∧ EndsInside memory cmdLen p := by
  induction hfuel : cmdLen - p using Nat.strong_induction_on generalizing p rounds with
  | _ left ih =>
    cases rounds with
    | zero =>
      obtain ⟨_,_,hnone,-⟩ := hsafe
      cases hnone
    | succ rounds =>
      by_cases hp : p + 7 ≤ memory.length
      · rw [searchFrom_of_le hp] at hsafe
        simp only [searchFrom_of_le hp] at hfound
        by_cases hhere : typeAt memory p = type.toNat
        · rw [if_pos hhere] at hsafe
          simp only [if_pos hhere] at hfound
          have hreturned := hfound _ p rfl
          have hbehind := hnext p hreturned
          rw [nextSearch_of_le hp,safeSearch_passes,allowed_passed_iff hcmdLen] at hbehind
          obtain ⟨htype,hends⟩ := ih _ (by omega) hbehind.2 (fun trace q hsearch =>
            .next type _ p q hreturned hasked (by rw [nextSearch_of_le hp,hsearch]; rfl)) rfl
          have hcommand : typeAt memory p ≠ CommandType.cmdEnd.code := by
            intro hcode
            exact htype (UInt16.toNat_inj.mp (hhere.symm.trans hcode))
          exact ⟨htype,.command p hcommand hbehind.1 hends⟩
        · rw [if_neg hhere] at hsafe
          simp only [if_neg hhere] at hfound
          by_cases hend : typeAt memory p = CommandType.cmdEnd.code
          · rw [if_pos hend] at hsafe
            have hmarker := (allowed_marker_iff hend).mp
              (safeSearch_some.mp hsafe _ (List.mem_singleton_self _))
            refine ⟨?_,.marker p hend hmarker.2 hmarker.1⟩
            intro hzero
            rw [hzero] at hhere
            exact hhere hend
          · rw [if_neg hend,safeSearch_passes,allowed_passed_iff hcmdLen] at hsafe
            simp only [if_neg hend] at hfound
            obtain ⟨htype,hends⟩ := ih _ (by omega) hsafe.2 (fun trace q hsearch =>
              hfound _ q (by rw [hsearch]; rfl)) rfl
            exact ⟨htype,.command p hend hsafe.1 hends⟩
      · obtain ⟨_,_,hnone,-⟩ := hsafe
        rw [searchFrom,if_neg hp] at hnone
        cases hnone

theorem endsBehind_of_safe {asked : UInt16 → Prop} {type : UInt16} (hasked : asked type)
    (hmemory : canDiagCmdStorage ≤ memory.length) (hcmdLen : cmdLen < canDiagCmdStorage)
    (hfirst : SafeSearch cmdLen (CANDiagCalculator.firstSearch memory type.toNat))
    (hnext : ∀ p, Returned memory asked p →
      SafeSearch cmdLen (CANDiagCalculator.nextSearch memory p type.toNat)) :
    type ≠ 0 ∧ EndsBehind memory cmdLen 0 := by
  have hheader : 0 + 7 ≤ memory.length := by
    rw [canDiagCmdStorage] at hmemory
    omega
  have hunfold : CANDiagCalculator.firstSearch memory type.toNat =
      if typeAt memory 0 = type.toNat then some ([inspection memory 0 false],some 0)
      else CANDiagCalculator.nextSearch memory 0 type.toNat := by
    rw [CANDiagCalculator.firstSearch,if_pos hheader]
  by_cases hhere : typeAt memory 0 = type.toNat
  · rw [if_pos hhere] at hunfold
    have hreturned : Returned memory asked 0 := .first type _ 0 hasked hunfold
    have hbehind := hnext 0 hreturned
    rw [nextSearch_of_le hheader,safeSearch_passes,allowed_passed_iff hcmdLen] at hbehind
    obtain ⟨htype,hends⟩ := endsInside_of_safe hasked hcmdLen hnext hbehind.2
      fun trace q hsearch => .next type _ 0 q hreturned hasked
        (by rw [nextSearch_of_le hheader,hsearch]; rfl)
    exact ⟨htype,hbehind.1,hends⟩
  · rw [if_neg hhere] at hunfold
    rw [hunfold,nextSearch_of_le hheader,safeSearch_passes,allowed_passed_iff hcmdLen] at hfirst
    obtain ⟨htype,hends⟩ := endsInside_of_safe hasked hcmdLen hnext hfirst.2
      fun trace q hsearch => .first type _ q hasked
        (by rw [hunfold,nextSearch_of_le hheader,hsearch]; rfl)
    exact ⟨htype,hfirst.1,hends⟩

/-- All searches are safe exactly when none asks for the end marker and the list ends inside
behind its first element. -/
theorem safeSearches_iff {asked : UInt16 → Prop} (hasked : ∃ type, asked type)
    (hmemory : canDiagCmdStorage ≤ memory.length) (hcmdLen : cmdLen < canDiagCmdStorage) :
    ((∀ type, asked type →
        SafeSearch cmdLen (CANDiagCalculator.firstSearch memory type.toNat)) ∧
      ∀ type p, asked type → Returned memory asked p →
        SafeSearch cmdLen (CANDiagCalculator.nextSearch memory p type.toNat)) ↔
      ¬asked 0 ∧ EndsBehind memory cmdLen 0 := by
  constructor
  · rintro ⟨hfirsts,hnexts⟩
    have hbehind {type : UInt16} (htypeAsked : asked type) :
        type ≠ 0 ∧ EndsBehind memory cmdLen 0 :=
      endsBehind_of_safe htypeAsked hmemory hcmdLen (hfirsts type htypeAsked)
        fun p hreturned => hnexts type p htypeAsked hreturned
    obtain ⟨type,htypeAsked⟩ := hasked
    exact ⟨fun hend => (hbehind hend).1 rfl,(hbehind htypeAsked).2⟩
  · rintro ⟨hend,hbehind⟩
    constructor
    · intro type htypeAsked
      obtain ⟨trace,q,hsearch,hallowed,-⟩ :=
        hbehind.firstSearch hmemory hcmdLen (code_ne_cmdEnd hend htypeAsked)
      exact ⟨trace,q,hsearch,hallowed⟩
    · intro type p htypeAsked hreturned
      obtain ⟨trace,q,hsearch,hallowed,-⟩ :=
        (hreturned.endsBehind hbehind hmemory hcmdLen hend).nextSearch hmemory hcmdLen
          (code_ne_cmdEnd hend htypeAsked)
      exact ⟨trace,q,hsearch,hallowed⟩

end Inside

section Validation

variable {memory : List UInt8} {cmdLen p : Nat}

theorem validateFrom_of_le {rounds : Nat} (hp : p + 7 ≤ memory.length) :
    validateFrom (rounds + 1) (memory.drop p) =
      if typeAt memory p = CommandType.cmdEnd.code then some true
      else if sizeAt memory p > 8 then some false
      else validateFrom rounds (memory.drop (p + 7 + sizeAt memory p)) := by
  obtain ⟨idCmd,hcommand⟩ := commandAt_drop hp
  rw [validateFrom,hcommand]
  simp only [Option.bind_eq_bind,Option.bind_some,List.drop_drop]
  rfl

theorem validateFrom_of_lt {rounds : Nat} (hp : ¬p + 7 ≤ memory.length) :
    validateFrom rounds (memory.drop p) = none := by
  cases rounds with
  | zero => rfl
  | succ rounds =>
    rw [validateFrom,commandAt_drop_of_lt hp]
    rfl

/-- `Validate` refuses the list exactly for an oversized command. -/
theorem validateFrom_eq_false_iff {rounds : Nat} (hrounds : memory.length ≤ p + rounds) :
    validateFrom rounds (memory.drop p) = some false ↔ Oversized memory p := by
  induction rounds generalizing p with
  | zero =>
    have hp : ¬p + 7 ≤ memory.length := by omega
    rw [validateFrom_of_lt hp]
    refine iff_of_false nofun ?_
    rintro (⟨_,hle,-⟩ | ⟨_,hle,-⟩) <;> exact hp hle
  | succ rounds ih =>
    by_cases hp : p + 7 ≤ memory.length
    · rw [validateFrom_of_le hp]
      by_cases hend : typeAt memory p = CommandType.cmdEnd.code
      · rw [if_pos hend]
        refine iff_of_false nofun ?_
        rintro (⟨_,-,hcommand,-⟩ | ⟨_,-,hcommand,-⟩) <;> exact hcommand hend
      · rw [if_neg hend]
        by_cases hsize : sizeAt memory p > 8
        · rw [if_pos hsize]
          exact iff_of_true rfl (.here p hp hend hsize)
        · rw [if_neg hsize,ih (by omega)]
          refine ⟨.later p hp hend (Nat.le_of_not_gt hsize),?_⟩
          rintro (⟨_,-,-,hlarge⟩ | ⟨_,-,-,-,hlater⟩)
          · exact absurd hlarge hsize
          · exact hlater
    · rw [validateFrom_of_lt hp]
      refine iff_of_false nofun ?_
      rintro (⟨_,hle,-⟩ | ⟨_,hle,-⟩) <;> exact hp hle

/-- `Validate` ends on a list that ends inside. -/
theorem EndsInside.validates (hends : EndsInside memory cmdLen p)
    (hmemory : canDiagCmdStorage ≤ memory.length) (hcmdLen : cmdLen < canDiagCmdStorage)
    {rounds : Nat} (hrounds : memory.length ≤ p + rounds) :
    validateFrom rounds (memory.drop p) ≠ none := by
  induction hends generalizing rounds with
  | marker p hend _ hstorage =>
    obtain ⟨rounds,rfl⟩ : ∃ k, rounds = k + 1 := ⟨rounds - 1,by omega⟩
    rw [validateFrom_of_le (by omega),if_pos hend]
    exact nofun
  | command p hcommand hinside _ ih =>
    obtain ⟨rounds,rfl⟩ : ∃ k, rounds = k + 1 := ⟨rounds - 1,by omega⟩
    rw [validateFrom_of_le (by omega),if_neg hcommand]
    split_ifs
    · exact nofun
    · exact ih (by omega)

theorem EndsBehind.validates (hbehind : EndsBehind memory cmdLen 0)
    (hmemory : canDiagCmdStorage ≤ memory.length) (hcmdLen : cmdLen < canDiagCmdStorage) :
    validateFrom memory.length memory ≠ none := by
  have hinside := hbehind.1
  rw [canDiagCmdStorage] at hmemory
  obtain ⟨rounds,hrounds⟩ : ∃ k, memory.length = k + 1 := ⟨memory.length - 1,by omega⟩
  have hfirst := @validateFrom_of_le memory 0 rounds (by omega)
  rw [List.drop_zero] at hfirst
  rw [hrounds,hfirst]
  split_ifs
  · exact nofun
  · exact nofun
  · exact hbehind.2.validates hmemory hcmdLen (by omega)

end Validation

/-- A record of another type leaves the calculator not ready. -/
theorem setData_of_other_type (old : CANDiagCalculator) {buff : Memory}
    (htype : buff 0 ≠ canDiagHdrType) :
    ∃ result, old.setData buff = some result ∧ result.object.ready = false := by
  rw [setData,parse,if_neg htype]
  exact ⟨_,rfl,rfl⟩

theorem commandListSafe_of_not_ready {old : CANDiagCalculator} {buff : Memory}
    {asked : UInt16 → Prop} {result : SetDataResult CANDiagCalculator}
    (hset : old.setData buff = some result) (hready : result.object.ready = false) :
    CommandListSafe old buff asked :=
  ⟨result,hset,fun hnot => absurd (hready.symm.trans hnot) (by decide)⟩

theorem storedCommands_length {old : CANDiagCalculator} {buff : Memory} (hlen : CmdLenOk buff)
    (hmemory : canDiagCmdStorage ≤ old.memory.length) :
    (storedCommands old buff).length = old.memory.length := by
  have hcmdLen := hlen.2
  apply Buffer.splice_length
  rw [Memory.bytes_length]
  omega

/-- A record that is read is safe when a command is oversized or the searches are safe. -/
theorem commandListSafe_read_iff (old : CANDiagCalculator) {buff : Memory}
    {asked : UInt16 → Prop} (htype : buff 0 = canDiagHdrType) (hlen : CmdLenOk buff)
    (hmemory : canDiagCmdStorage ≤ old.memory.length) (hasked : ∃ type, asked type) :
    CommandListSafe old buff asked ↔ Oversized (storedCommands old buff) 0 ∨
      ¬asked 0 ∧ EndsBehind (storedCommands old buff) (cmdLenOf buff) 0 := by
  have hstored : canDiagCmdStorage ≤ (storedCommands old buff).length := by
    rwa [storedCommands_length hlen hmemory]
  have hset := diag_setData_of_cmdLenOk old htype hlen
  have hoversized := @validateFrom_eq_false_iff (storedCommands old buff) 0
    (storedCommands old buff).length (by omega)
  rw [List.drop_zero,← commandsValid] at hoversized
  rw [← safeSearches_iff hasked hstored hlen.2]
  constructor
  · rintro ⟨result,hsome,hsafe⟩
    rw [hset,Option.map_eq_some_iff] at hsome
    obtain ⟨valid,hvalid,rfl⟩ := hsome
    cases valid with
    | false => exact Or.inl (hoversized.mp hvalid)
    | true => exact Or.inr (hsafe rfl)
  · rintro (hlarge | hsafe)
    · rw [hoversized.mpr hlarge] at hset
      exact commandListSafe_of_not_ready hset rfl
    · have hbehind := ((safeSearches_iff hasked hstored hlen.2).mp hsafe).2
      cases hvalid : commandsValid old buff with
      | none => exact absurd hvalid (hbehind.validates hstored hlen.2)
      | some valid =>
        rw [hvalid] at hset
        exact ⟨_,hset,fun _ => hsafe⟩

/-- For every record, whatever the storage held before, and every set of types that searches ask
for, `SetData` and the searches are safe exactly when the record is refused, or no search asks
for the end marker and the list ends inside behind its first element. -/
theorem commandListSafe_iff (old : CANDiagCalculator)
    (hmemory : canDiagCmdStorage ≤ old.memory.length) (buff : Memory) (asked : UInt16 → Prop)
    (hasked : ∃ type, asked type) :
    CommandListSafe old buff asked ↔
      ¬(buff 0 = canDiagHdrType ∧ CmdLenOk buff) ∨ Oversized (storedCommands old buff) 0 ∨
        ¬asked 0 ∧ EndsBehind (storedCommands old buff) (cmdLenOf buff) 0 := by
  by_cases htype : buff 0 = canDiagHdrType
  · by_cases hlen : CmdLenOk buff
    · rw [or_iff_right (not_not_intro ⟨htype,hlen⟩)]
      exact commandListSafe_read_iff old htype hlen hmemory hasked
    · obtain ⟨object,hset,hready⟩ := diag_setData_of_not_cmdLenOk old htype hlen
      exact iff_of_true (commandListSafe_of_not_ready hset hready)
        (Or.inl fun hboth => hlen hboth.2)
  · obtain ⟨result,hset,hready⟩ := setData_of_other_type old htype
    exact iff_of_true (commandListSafe_of_not_ready hset hready)
      (Or.inl fun hboth => htype hboth.1)

/-- A calculator with an empty storage, and four bytes behind it. -/
def clearedDiag : CANDiagCalculator :=
  ⟨false,false,⟨0,0,0,0,0,0,0,0,0⟩,List.replicate (canDiagCmdStorage + 4) 0⟩

/-- A record with one command, which is not followed by an end marker. -/
def unterminated : Memory := fun i =>
  [1,0,0,0,0,0x6A,0,0,0,0,0,0,0,0,0,0,0,0,7,0,3,0,1,0,0,0,0].getD i 0

theorem commandListSafe_iff_unterminated :
    CommandListSafe clearedDiag unterminated (fun type => type = 2) ↔
      ¬(unterminated 0 = canDiagHdrType ∧ CmdLenOk unterminated) ∨
        Oversized (storedCommands clearedDiag unterminated) 0 ∨
        ¬(0 : UInt16) = 2 ∧
          EndsBehind (storedCommands clearedDiag unterminated) (cmdLenOf unterminated) 0 :=
  commandListSafe_iff clearedDiag (by simp [clearedDiag]) unterminated (fun type => type = 2)
    ⟨2,rfl⟩

/-- The search for a keep-alive command takes what lies behind the seven copied bytes for the end
marker. -/
theorem unterminated_not_safe :
    ¬CommandListSafe clearedDiag unterminated (fun type => type = 2) := by
  rintro ⟨result,hset,hsafe⟩
  have hlen : CmdLenOk unterminated := ⟨by decide +kernel,by decide +kernel⟩
  have hvalid : commandsValid clearedDiag unterminated = some true := by decide +kernel
  rw [diag_setData_of_cmdLenOk clearedDiag rfl hlen,hvalid] at hset
  cases hset
  obtain ⟨trace,p,hsearch,hallowed⟩ := (hsafe rfl).1 2 rfl
  have hfirst : firstSearch (storedCommands clearedDiag unterminated) 2 =
      some ([⟨0,3,0,true⟩,⟨7,0,0,false⟩],none) := by
    decide +kernel
  cases hsearch.symm.trans hfirst
  have hmarker := hallowed ⟨7,0,0,false⟩ (by decide)
  exact absurd hmarker.2.1 (by decide +kernel)

end CANDiagCalculator

end Pyrn.Can
