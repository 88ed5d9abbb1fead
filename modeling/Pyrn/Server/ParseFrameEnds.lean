import Pyrn.Server.UdpDataServer
import Mathlib.Data.List.GetD

/-!
# When parsing a frame ends

The first loop of `parseFrame` moves on by two bytes or more in every round. The loop that deals
out the data of a record moves on by the lengths of its chunks, so a record whose chunks are all
empty keeps it from ending.
-/

namespace Pyrn.Server

open PackedStruct LittleEndian

/-- Some fuel is enough for a list or an exception. -/
def Terminates {Time : Type} (clock : Nat → Time) (rdata : List UInt8) : Prop :=
  ∃ fuel, parseFrame fuel clock rdata ≠ .error .outOfFuel

/-- The byte behind address, `dt` and size. -/
def nChunksOf (data : List UInt8) : Nat := (data.getD 8 0).toNat

/-- The record is too short for its header or its chunks. -/
def Raises (data : List UInt8) : Prop := data.length < 9 ∨ data.length < 9 + nChunksOf data * 2

/-- The record has chunks, all of them empty, and data behind them. -/
structure Stalls (data : List UInt8) : Prop where
  chunks : 0 < nChunksOf data
  empty : ∀ i < nChunksOf data, data.getD (9 + i * 2 + 1) 0 = 0
  data : 9 + nChunksOf data * 2 < data.length

/-- No record stalls in front of the first one that raises an exception. -/
def RecordsEnd : List (List UInt8) → Prop
  | [] => True
  | data :: datas => Raises data ∨ ¬Stalls data ∧ RecordsEnd datas

section Splitting

variable {rdata : List UInt8}

/-- A result of the first loop does not depend on the fuel. -/
theorem splitRecords_stable {fuel more dec : Nat} (hmore : fuel ≤ more)
    (hends : splitRecords rdata fuel dec ≠ .error .outOfFuel) :
    splitRecords rdata more dec = splitRecords rdata fuel dec := by
  induction fuel generalizing more dec with
  | zero => exact absurd rfl hends
  | succ fuel ih =>
    obtain ⟨more,rfl⟩ : ∃ k, more = k + 1 := ⟨more - 1,by omega⟩
    rw [splitRecords] at hends ⊢
    rw [splitRecords]
    split
    · rename_i packLen hsize
      rw [hsize] at hends
      simp only at hends ⊢
      split_ifs with hlast
      · rfl
      · rw [if_neg hlast] at hends
        rw [ih (Nat.le_of_succ_le_succ hmore)]
        intro hrest
        rw [hrest] at hends
        exact hends rfl
    · rfl

/-- Every round of the first loop moves on. -/
theorem splitRecords_ends {fuel dec : Nat} (hfuel : 0 < fuel) (hlen : rdata.length < dec + fuel) :
    splitRecords rdata fuel dec ≠ .error .outOfFuel := by
  induction fuel generalizing dec with
  | zero => exact absurd hfuel (Nat.lt_irrefl 0)
  | succ fuel ih =>
    rw [splitRecords]
    split
    · rename_i packLen _
      simp only
      split_ifs with hlast
      · exact nofun
      · have hrest : splitRecords rdata fuel (dec + (packLen + 2)) ≠ .error .outOfFuel :=
          ih (by omega) (by omega)
        cases hsplit : splitRecords rdata fuel (dec + (packLen + 2)) with
        | ok datas => exact nofun
        | error failure =>
          rw [hsplit] at hrest
          exact hrest
    · exact nofun

end Splitting

section Dealing

variable {chunks : List (Nat × Nat)} {rawData : List UInt8}

/-- Chunks without bytes leave the loop where it is. -/
theorem dealData_stalls (hempty : ∀ chunk ∈ chunks, chunk.2 = 0) {i : Nat}
    (hi : i < rawData.length) (fuel j : Nat) (datas : List (List String)) :
    dealData chunks rawData fuel i j datas = .error .outOfFuel := by
  induction fuel generalizing j datas with
  | zero => rfl
  | succ fuel ih =>
    have hoffset : (chunks.getD (j % chunks.length) (0,0)).2 = 0 := by
      rcases Nat.lt_or_ge (j % chunks.length) chunks.length with hlt | hge
      · rw [List.getD_eq_getElem _ _ hlt]
        exact hempty _ (List.getElem_mem hlt)
      · rw [List.getD_eq_default _ _ hge]
    rw [dealData,if_pos hi]
    simp only
    rw [hoffset]
    exact ih _ _

/-- The rounds from turn `j` on until the turn of chunk `p` among `k` chunks. -/
def roundsUntil (p k j : Nat) : Nat := if j % k ≤ p then p - j % k else p + k - j % k

theorem roundsUntil_succ {p k j : Nat} (hp : p < k) (hother : j % k ≠ p) :
    roundsUntil p k (j + 1) + 1 = roundsUntil p k j := by
  have hlt : j % k < k := Nat.mod_lt j (by omega)
  have hnext : (j + 1) % k = if j % k + 1 = k then 0 else j % k + 1 := by
    rw [Nat.add_mod]
    rcases Nat.lt_or_ge 1 k with hk | hk
    · rw [Nat.mod_eq_of_lt hk]
      split_ifs with hwrap
      · rw [hwrap,Nat.mod_self]
      · exact Nat.mod_eq_of_lt (by omega)
    · obtain rfl : k = 1 := by omega
      omega
  rw [roundsUntil,roundsUntil,hnext]
  split_ifs <;> omega

theorem roundsUntil_lt {p k j : Nat} (hp : p < k) : roundsUntil p k j < k := by
  have hlt : j % k < k := Nat.mod_lt j (by omega)
  rw [roundsUntil]
  split_ifs <;> omega

/-- The loop raises no exception. -/
theorem dealData_cases (fuel i j : Nat) (datas : List (List String)) :
    (∃ dealt, dealData chunks rawData fuel i j datas = .ok dealt) ∨
      dealData chunks rawData fuel i j datas = .error .outOfFuel := by
  induction fuel generalizing i j datas with
  | zero => exact .inr rfl
  | succ fuel ih =>
    rw [dealData]
    split_ifs
    · exact ih _ _ _
    · exact .inl ⟨datas,rfl⟩

/-- With a chunk that has bytes the loop moves on once in a while. -/
theorem dealData_ends {p : Nat} (hp : p < chunks.length) (hpos : 0 < (chunks.getD p (0,0)).2)
    {fuel i j : Nat} (hfuel : (rawData.length - i) * (chunks.length + 1) +
      roundsUntil p chunks.length j < fuel) (datas : List (List String)) :
    ∃ dealt, dealData chunks rawData fuel i j datas = .ok dealt := by
  induction fuel generalizing i j datas with
  | zero => exact absurd hfuel (Nat.not_lt_zero _)
  | succ fuel ih =>
    rw [dealData]
    split_ifs with hi
    · simp only
      apply ih
      by_cases hturn : j % chunks.length = p
      · rw [hturn]
        have hfewer : rawData.length - (i + (chunks.getD p (0,0)).2) + 1 ≤ rawData.length - i := by
          omega
        have hmeasure := Nat.mul_le_mul_right (chunks.length + 1) hfewer
        have hnext := roundsUntil_lt (j := j + 1) hp
        rw [Nat.add_mul,Nat.one_mul] at hmeasure
        omega
      · have hfewer : rawData.length - (i + (chunks.getD (j % chunks.length) (0,0)).2) ≤
            rawData.length - i := by omega
        have hmeasure := Nat.mul_le_mul_right (chunks.length + 1) hfewer
        have hnext := roundsUntil_succ hp hturn
        omega
    · exact ⟨datas,rfl⟩

end Dealing

section Records

/-- Two bytes are unpacked when they are there. -/
theorem unpackChunk_eq (data : List UInt8) (i : Nat) : unpackChunk data i =
    if 9 + i * 2 + 2 ≤ data.length then
      .ok ((data.getD (9 + i * 2) 0).toNat,(data.getD (9 + i * 2 + 1) 0).toNat)
    else .error .structError := by
  have hwidth : 9 + i * 2 + 2 - (9 + i * 2) = 2 := Nat.add_sub_cancel_left _ _
  rw [unpackChunk,slice,hwidth]
  rcases hrest : data.drop (9 + i * 2) with _ | ⟨start,_ | ⟨len,rest⟩⟩
  · have hlen := congrArg List.length hrest
    rw [List.length_drop,List.length_nil] at hlen
    rw [if_neg (by omega)]
    rfl
  · have hlen := congrArg List.length hrest
    rw [List.length_drop,List.length_singleton] at hlen
    rw [if_neg (by omega)]
    rfl
  · have hlen := congrArg List.length hrest
    rw [List.length_drop,List.length_cons,List.length_cons] at hlen
    have hstart : data.getD (9 + i * 2) 0 = start := by
      have hget := congrArg (fun xs => xs.getD 0 0) hrest
      simpa using hget
    have hend : data.getD (9 + i * 2 + 1) 0 = len := by
      have hget := congrArg (fun xs => xs.getD 1 0) hrest
      simpa using hget
    rw [if_pos (by omega),hstart,hend]
    rfl

/-- The chunks that the bytes behind a header name. -/
def chunksOf (data : List UInt8) : List (Nat × Nat) :=
  (List.range (nChunksOf data)).map fun i =>
    ((data.getD (9 + i * 2) 0).toNat,(data.getD (9 + i * 2 + 1) 0).toNat)

theorem chunksOf_length (data : List UInt8) : (chunksOf data).length = nChunksOf data := by
  rw [chunksOf,List.length_map,List.length_range]

theorem bind_ok {α β ε : Type} (x : α) (f : α → Except ε β) :
    (Except.ok x >>= f) = f x := rfl

theorem mapM_ok_of_forall {α β ε : Type} {f : α → Except ε β} {g : α → β} {xs : List α}
    (h : ∀ x ∈ xs, f x = .ok (g x)) : xs.mapM f = .ok (xs.map g) := by
  induction xs with
  | nil => rfl
  | cons x xs ih =>
    rw [List.mapM_cons,h x List.mem_cons_self,ih fun y hy => h y (List.mem_cons_of_mem _ hy)]
    rfl

/-- A failure of one element fails the whole, when all failures are the same. -/
private theorem mapM_error {α β ε : Type} {f : α → Except ε β} {failure : ε} {xs : List α}
    (hsame : ∀ x ∈ xs, (∃ y, f x = .ok y) ∨ f x = .error failure)
    (hsome : ∃ x ∈ xs, f x = .error failure) : xs.mapM f = .error failure := by
  induction xs with
  | nil =>
    obtain ⟨x,hx,-⟩ := hsome
    cases hx
  | cons x xs ih =>
    rw [List.mapM_cons]
    rcases hsame x List.mem_cons_self with ⟨y,hy⟩ | hfails
    · have hrest : ∃ x ∈ xs, f x = .error failure := by
        obtain ⟨z,hz,hfails⟩ := hsome
        rcases List.mem_cons.mp hz with rfl | hz
        · rw [hy] at hfails
          cases hfails
        · exact ⟨z,hz,hfails⟩
      rw [hy,ih (fun z hz => hsame z (List.mem_cons_of_mem _ hz)) hrest]
      rfl
    · rw [hfails]
      rfl

theorem unpackChunks_of_le {data : List UInt8} (hlen : 9 + nChunksOf data * 2 ≤ data.length) :
    (List.range (nChunksOf data)).mapM (unpackChunk data) = .ok (chunksOf data) := by
  apply mapM_ok_of_forall
  intro i hi
  have hlt := List.mem_range.mp hi
  rw [unpackChunk_eq,if_pos (by omega)]

theorem unpackChunks_of_lt {data : List UInt8} (hheader : 9 ≤ data.length)
    (hlen : data.length < 9 + nChunksOf data * 2) :
    (List.range (nChunksOf data)).mapM (unpackChunk data) = .error .structError := by
  apply mapM_error
  · intro i _
    rw [unpackChunk_eq]
    split_ifs
    · exact .inl ⟨_,rfl⟩
    · exact .inr rfl
  · refine ⟨nChunksOf data - 1,List.mem_range.mpr (by omega),?_⟩
    rw [unpackChunk_eq,if_neg (by omega)]

/-- The header of a record that is long enough for one. -/
theorem unpackHeader_eq {data : List UInt8} (hheader : 9 ≤ data.length) :
    ∃ rxAdd dt sz, unpack [4,2,2,1] (slice data 0 9) = some [rxAdd,dt,sz,nChunksOf data] := by
  match data,hheader with
  | b₀ :: b₁ :: b₂ :: b₃ :: b₄ :: b₅ :: b₆ :: b₇ :: b₈ :: rest,_ =>
    exact ⟨ofBytes [b₀,b₁,b₂,b₃],ofBytes [b₄,b₅],ofBytes [b₆,b₇],rfl⟩

theorem unpackHeader_of_lt {data : List UInt8} (hheader : data.length < 9) :
    unpack [4,2,2,1] (slice data 0 9) = none := by
  match data,hheader with
  | [],_ | [_],_ | [_,_],_ | [_,_,_],_ | [_,_,_,_],_ | [_,_,_,_,_],_ | [_,_,_,_,_,_],_
  | [_,_,_,_,_,_,_],_ | [_,_,_,_,_,_,_,_],_ => rfl

variable {Time : Type} {data : List UInt8}

theorem parseRecord_raises (hraises : Raises data) (fuel : Nat) (now : Time) :
    parseRecord fuel now data = .error .structError := by
  rw [parseRecord]
  rcases Nat.lt_or_ge data.length 9 with hshort | hheader
  · rw [unpackHeader_of_lt hshort]
  · obtain ⟨rxAdd,dt,sz,hunpack⟩ := unpackHeader_eq hheader
    have hlen : data.length < 9 + nChunksOf data * 2 :=
      hraises.resolve_left (Nat.not_lt.mpr hheader)
    rw [hunpack]
    simp only
    rw [unpackChunks_of_lt hheader hlen]
    rfl

/-- A record that raises nothing is decided by the loop that deals out its data. -/
theorem parseRecord_eq (hfine : ¬Raises data) (fuel : Nat) (now : Time) :
    ∃ rxAdd, parseRecord fuel now data =
      if nChunksOf data ≠ 0 then
        (dealData (chunksOf data) (data.drop (9 + nChunksOf data * 2)) fuel 0 0
          ((chunksOf data).map fun _ => [])).map
            fun datas => some ⟨addressOf rxAdd,chunksOf data,datas,now⟩
      else .ok none := by
  rw [Raises,not_or,Nat.not_lt,Nat.not_lt] at hfine
  obtain ⟨rxAdd,dt,sz,hunpack⟩ := unpackHeader_eq hfine.1
  refine ⟨rxAdd,?_⟩
  rw [parseRecord,hunpack]
  simp only
  rw [unpackChunks_of_le hfine.2]
  rw [bind_ok,chunksOf_length]
  split_ifs with hsome
  · cases dealData (chunksOf data) (data.drop (9 + nChunksOf data * 2)) fuel 0 0
      ((chunksOf data).map fun _ => []) <;> rfl
  · rfl

theorem parseRecord_cases (hfine : ¬Raises data) (fuel : Nat) (now : Time) :
    (∃ entry, parseRecord fuel now data = .ok entry) ∨
      parseRecord fuel now data = .error .outOfFuel := by
  obtain ⟨rxAdd,hrecord⟩ := parseRecord_eq hfine fuel now
  rw [hrecord]
  split_ifs
  · rcases dealData_cases fuel 0 0 ((chunksOf data).map fun _ => []) with ⟨dealt,hdealt⟩ | hfuel
    · rw [hdealt]
      exact .inl ⟨_,rfl⟩
    · rw [hfuel]
      exact .inr rfl
  · exact .inl ⟨none,rfl⟩

theorem parseRecord_stalls (hstalls : Stalls data) (fuel : Nat) (now : Time) :
    parseRecord fuel now data = .error .outOfFuel := by
  have hdata := hstalls.data
  have hfine : ¬Raises data := by
    rw [Raises]
    omega
  obtain ⟨rxAdd,hrecord⟩ := parseRecord_eq hfine fuel now
  have hempty : ∀ chunk ∈ chunksOf data, chunk.2 = 0 := by
    intro chunk hmem
    obtain ⟨i,hi,rfl⟩ := List.mem_map.mp hmem
    dsimp only
    rw [hstalls.empty i (List.mem_range.mp hi)]
    rfl
  have hraw : 0 < (data.drop (9 + nChunksOf data * 2)).length := by
    rw [List.length_drop]
    omega
  rw [hrecord,if_pos (Nat.ne_of_gt hstalls.chunks),dealData_stalls hempty hraw]
  rfl

/-- A record that neither raises nor stalls is parsed, given enough fuel. -/
theorem parseRecord_ends (hfine : ¬Raises data) (hends : ¬Stalls data) :
    ∃ enough, ∀ fuel ≥ enough, ∀ now : Time, ∃ entry, parseRecord fuel now data = .ok entry := by
  by_cases hsome : nChunksOf data ≠ 0
  · by_cases hraw : 9 + nChunksOf data * 2 < data.length
    · have hchunk : ∃ p < nChunksOf data, data.getD (9 + p * 2 + 1) 0 ≠ 0 := by
        by_contra! hempty
        exact hends ⟨Nat.pos_of_ne_zero hsome,hempty,hraw⟩
      obtain ⟨p,hp,hlen⟩ := hchunk
      have hpos : 0 < ((chunksOf data).getD p (0,0)).2 := by
        have hlt : p < (chunksOf data).length := by rwa [chunksOf_length]
        rw [List.getD_eq_getElem _ _ hlt]
        simp only [chunksOf,List.getElem_map,List.getElem_range]
        exact Nat.pos_of_ne_zero fun hzero => hlen (UInt8.toNat_inj.mp hzero)
      rw [← chunksOf_length] at hp
      refine ⟨((data.drop (9 + nChunksOf data * 2)).length - 0) * ((chunksOf data).length + 1) +
        roundsUntil p (chunksOf data).length 0 + 1,fun fuel hfuel now => ?_⟩
      obtain ⟨rxAdd,hrecord⟩ := parseRecord_eq hfine fuel now
      obtain ⟨dealt,hdealt⟩ := dealData_ends hp hpos (Nat.lt_of_succ_le hfuel)
        ((chunksOf data).map fun _ => [])
      rw [hrecord,if_pos hsome,hdealt]
      exact ⟨_,rfl⟩
    · refine ⟨1,fun fuel hfuel now => ?_⟩
      obtain ⟨rxAdd,hrecord⟩ := parseRecord_eq hfine fuel now
      obtain ⟨fuel,rfl⟩ : ∃ k, fuel = k + 1 := ⟨fuel - 1,by omega⟩
      rw [hrecord,if_pos hsome,dealData,if_neg]
      · exact ⟨_,rfl⟩
      · rw [List.length_drop]
        omega
  · refine ⟨0,fun fuel _ now => ?_⟩
    obtain ⟨rxAdd,hrecord⟩ := parseRecord_eq hfine fuel now
    rw [hrecord,if_neg hsome]
    exact ⟨none,rfl⟩

end Records

section Frames

variable {Time : Type} (clock : Nat → Time)

/-- The second loop ends when no record stalls before an exception. -/
theorem parseRecords_ends {datas : List (List UInt8)} (hends : RecordsEnd datas) (round : Nat) :
    ∃ enough, ∀ fuel ≥ enough, parseRecords fuel clock round datas ≠ .error .outOfFuel := by
  induction datas generalizing round with
  | nil => exact ⟨0,fun fuel _ => nofun⟩
  | cons data datas ih =>
    by_cases hraises : Raises data
    · refine ⟨0,fun fuel _ => ?_⟩
      rw [parseRecords,parseRecord_raises hraises]
      exact nofun
    · obtain ⟨hdata,hdatas⟩ := hends.resolve_left hraises
      obtain ⟨first,hfirst⟩ := @parseRecord_ends Time data hraises hdata
      obtain ⟨rest,hrest⟩ := ih hdatas (round + 1)
      refine ⟨max first rest,fun fuel hfuel => ?_⟩
      obtain ⟨entry,hentry⟩ := hfirst fuel (le_trans (le_max_left _ _) hfuel) (clock round)
      have hlater := hrest fuel (le_trans (le_max_right _ _) hfuel)
      rw [parseRecords,hentry,bind_ok]
      cases hparse : parseRecords fuel clock (round + 1) datas with
      | ok entries => exact nofun
      | error failure =>
        rw [hparse] at hlater
        exact hlater

/-- A record that stalls keeps the second loop from ending when everything before it is parsed. -/
theorem parseRecords_stalls {datas : List (List UInt8)} (hstalls : ¬RecordsEnd datas)
    (fuel round : Nat) : parseRecords fuel clock round datas = .error .outOfFuel := by
  induction datas generalizing round with
  | nil => exact absurd trivial hstalls
  | cons data datas ih =>
    rw [RecordsEnd,not_or,not_and_or,not_not] at hstalls
    obtain ⟨hfine,hdata⟩ := hstalls
    rw [parseRecords]
    by_cases hstall : Stalls data
    · rw [parseRecord_stalls hstall]
      rfl
    · rcases parseRecord_cases hfine fuel (clock round) with ⟨entry,hentry⟩ | hfuel
      · rw [hentry,bind_ok,ih (hdata.resolve_left hstall)]
        rfl
      · rw [hfuel]
        rfl

/-- The two loops on a datagram whose records begin at `dec`. -/
theorem loops_terminate_iff (rdata : List UInt8) (dec : Nat) :
    (∃ fuel, (do
      let datas ← splitRecords rdata fuel dec
      parseRecords fuel clock 0 datas) ≠ .error .outOfFuel) ↔
      ∀ datas, splitRecords rdata (rdata.length + 1) dec = .ok datas → RecordsEnd datas := by
  have hends : splitRecords rdata (rdata.length + 1) dec ≠ .error .outOfFuel :=
    splitRecords_ends (by omega) (by omega)
  constructor
  · rintro ⟨fuel,hterminates⟩ datas hdatas
    by_contra hstalls
    apply hterminates
    by_cases hfuel : splitRecords rdata fuel dec = .error .outOfFuel
    · rw [hfuel]
      rfl
    · have hsame : splitRecords rdata fuel dec = .ok datas := by
        rw [← hdatas,← splitRecords_stable (Nat.le_max_left fuel (rdata.length + 1)) hfuel,
          splitRecords_stable (Nat.le_max_right fuel (rdata.length + 1)) hends]
      rw [hsame,bind_ok]
      exact parseRecords_stalls clock hstalls fuel 0
  · intro hrecords
    cases hsplit : splitRecords rdata (rdata.length + 1) dec with
    | error failure =>
      refine ⟨rdata.length + 1,?_⟩
      rw [hsplit] at hends ⊢
      intro hfails
      cases hfails
      exact hends rfl
    | ok datas =>
      obtain ⟨enough,henough⟩ := parseRecords_ends clock (hrecords datas hsplit) 0
      refine ⟨max enough (rdata.length + 1),?_⟩
      rw [splitRecords_stable (Nat.le_max_right enough _) hends,hsplit,bind_ok]
      exact henough _ (Nat.le_max_left _ _)

end Frames

/-- `parseFrame` of the TCP server, whose datagrams have no packet counter. -/
def tcpParseFrame {Time : Type} (fuel : Nat) (clock : Nat → Time) (rdata : List UInt8) :
    Except Failure (List (Entry Time)) := do
  let datas ← splitRecords rdata fuel 1
  parseRecords fuel clock 0 datas

theorem tcpParseFrame_terminates_iff {Time : Type} (clock : Nat → Time) (rdata : List UInt8) :
    (∃ fuel, tcpParseFrame fuel clock rdata ≠ .error .outOfFuel) ↔
      ∀ datas, splitRecords rdata (rdata.length + 1) 1 = .ok datas → RecordsEnd datas :=
  loops_terminate_iff clock rdata 1

/-- Parsing a datagram ends exactly when, once it has been split into records, none of them
stalls in front of the first one that raises an exception. -/
theorem parseFrame_terminates_iff {Time : Type} (clock : Nat → Time) (rdata : List UInt8) :
    Terminates clock rdata ↔
      ∀ datas, splitRecords rdata (rdata.length + 1) 3 = .ok datas → RecordsEnd datas :=
  loops_terminate_iff clock rdata 3

/-- A record with one chunk of no bytes and one byte of data. -/
def emptyChunk : List UInt8 := [1,0,0,0,0,0,0,0,1,0,0,7]

theorem parseFrame_emptyChunk (fuel : Nat) :
    parseFrame fuel (fun round => round) ([2,0,0,12,0] ++ emptyChunk) = .error .outOfFuel := by
  cases fuel with
  | zero => rfl
  | succ fuel =>
    have hsplit : splitRecords ([2,0,0,12,0] ++ emptyChunk) (fuel + 1) 3 = .ok [emptyChunk] := rfl
    have hstalls : Stalls emptyChunk := ⟨by decide,by decide,by decide⟩
    rw [parseFrame,hsplit,bind_ok]
    apply parseRecords_stalls
    rintro (hraises | ⟨hends,-⟩)
    · rcases hraises with hshort | hshort <;> exact absurd hshort (by decide)
    · exact hends hstalls

/-- The datagram of that record keeps `parseFrame` from returning. -/
theorem parseFrame_not_terminates :
    ¬Terminates (fun round => round) ([2,0,0,12,0] ++ emptyChunk) :=
  fun ⟨fuel,hends⟩ => hends (parseFrame_emptyChunk fuel)

end Pyrn.Server
