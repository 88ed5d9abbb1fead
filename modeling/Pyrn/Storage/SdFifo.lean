import Pyrn.Framework.MemoryRing
import Pyrn.Storage.RecordFifo
import Pyrn.Storage.SdRegion

/-!
# The circular buffer on the card as a FIFO

The abstract queue is a list of records with the positions at which the oldest one begins and the
next one will. On a faultless card a block write clears the rest of its last sector, so a record
goes in unharmed when nothing that has not been read yet lies there.
-/

namespace Pyrn.Storage

open BlockCopy MemoryRing

/-- The queued records, oldest first, and the two cursors. -/
structure SdQueue where
  records : List Record
  pRead : Int
  pWrite : Int
  deriving DecidableEq, Repr

/-- The circular buffer stores exactly the records of the queue. -/
structure Laid (region : SdStorage) (ring : SdCircBuff) (s : SdState) (queue : SdQueue) : Prop where
  seated : ring.Seated region
  pRead : ring.pRead = queue.pRead ∧ queue.pRead < ring.size
  pWrite : ring.pWrite = queue.pWrite ∧
    queue.pWrite = wrap ring.size (queue.pRead + used queue.records)
  current : ring.current = used queue.records ∧ used queue.records < ring.size
  records : ∀ record ∈ queue.records, 1 ≤ record.length ∧ record.length < 2048
  stored : Stored s.card (region.iSectorStart * 512) ring.size queue.pRead
    (framedQueue queue.records)

/-- The block writes that `n` bytes at a position take. -/
def splitBlock (size p n : Int) : List (Int × Int) :=
  if n ≤ size - p then [(p,n)] else [(p,size - p),(0,n - (size - p))]

/-- The block writes of a record. -/
def recordBlocks (size pWrite length : Int) : List (Int × Int) :=
  splitBlock size pWrite 4 ++ splitBlock size (wrap size (pWrite + 4)) length

/-- No block write behind `unread` bytes clears one of them. -/
def SparesUnread (size : Int) : Int → List (Int × Int) → Prop
  | _, [] => True
  | unread, (p,n) :: blocks =>
      unread + n + zeroFill (p % 512) n ≤ size ∧ SparesUnread size (unread + n) blocks

/-- The header of a record ends neither at the end of the region nor four bytes in front of it,
and the record ends neither there nor as many bytes in front of it as it has. -/
def KeepsPlace (size pRead length : Int) : Prop :=
  (size - pRead ≠ 4 ∧ size - pRead ≠ 8) ∧
    size - wrap size (pRead + 4) ≠ length ∧ size - wrap size (pRead + 4) ≠ 2 * length

instance decidableSparesUnread (size : Int) :
    ∀ unread blocks, Decidable (SparesUnread size unread blocks)
  | _, [] => inferInstanceAs (Decidable True)
  | unread, (_,n) :: blocks =>
      have := decidableSparesUnread size (unread + n) blocks
      inferInstanceAs (Decidable (_ ∧ _))

instance (size pRead length : Int) : Decidable (KeepsPlace size pRead length) :=
  inferInstanceAs (Decidable (_ ∧ _))

/-- The caller's buffer with a record at its beginning. -/
def deliver (record : Record) (buffer : Bytes) : Bytes :=
  copy buffer 0 (image 0 record) 0 record.length

theorem cells_deliver (record : Record) (buffer : Bytes) :
    cells (deliver record buffer) 0 record.length = record := by
  have hcells : cells (copy buffer 0 (image 0 (record ++ [])) 0 record.length) 0 record.length =
      record := cells_copy_image record []
  rwa [List.append_nil] at hcells

/-- The length is read off the header of a stored record, -/
theorem intAt_framed (stack : Bytes) {n : Nat} (hn : n < 2 ^ 31) (more : List UInt8) :
    intAt (copy stack 0 (image 0 (intBytes n ++ more)) 0 4) = n := by
  have hcells : cells (copy stack 0 (image 0 (intBytes n ++ more)) 0 (intBytes n).length) 0
      (intBytes n).length = intBytes n := cells_copy_image _ _
  rw [intBytes_length] at hcells
  rw [intAt]
  exact (congrArg intOfBytes hcells).trans (intOfBytes_intBytes hn)

/-- and its bytes are copied from behind the header. -/
theorem copy_framed (buffer : Bytes) (n : Nat) (record : Record) (more : List UInt8) :
    copy buffer 0 (image 0 (intBytes n ++ (record ++ more))) 4 record.length =
      deliver record buffer := by
  apply copy_congr
  intro j hlow hhigh
  have hmiddle : image 0 (intBytes n ++ (record ++ more)) ((intBytes n).length + j) =
      image 0 record j := image_append hlow hhigh
  rw [intBytes_length] at hmiddle
  rw [Int.zero_add]
  exact hmiddle

theorem used_eq_length (queue : List Record) : (framedQueue queue).length = used queue := by
  induction queue with
  | nil => rfl
  | cons record queue ih =>
    rw [framedQueue_cons,used_cons]
    simp only [List.length_append,intBytes_length,ih]
    omega

section Faultless

variable {env : SdEnv} (henv : env.Faultless) {region : SdStorage} {ring : SdCircBuff}
include henv

/-- A block write behind a window that spares it extends it. -/
theorem writeAt_appends (hring : ring.Seated region) (buffer : Bytes) (start : Int) {r p n : Int}
    {xs : List UInt8} {s : SdState}
    (hstored : Stored s.card (region.iSectorStart * 512) ring.size r xs)
    (hp : p = wrap ring.size (r + xs.length)) (hrange : 0 ≤ p ∧ 0 < n ∧ p + n ≤ ring.size)
    (hspares : xs.length + n + zeroFill (p % 512) n ≤ ring.size) :
    ∃ s', ring.writeAt env buffer start p n s = some (0,s') ∧
      Stored s'.card (region.iSectorStart * 512) ring.size r
        (xs ++ cells buffer start n.toNat) := by
  obtain ⟨⟨hindex,hoffset⟩,hroom⟩ := room_of_seated hring hrange.1
  have hsize := hring.size
  obtain ⟨s',hwrite,hcard⟩ := write_of_faultless henv buffer start s hoffset hrange.2.1
    (hroom.symm ▸ (by omega : n ≤ ring.size - p))
  refine ⟨s',hwrite,?_⟩
  have hposition : (ring.iSectorStart + p.tdiv 512) * 512 + p.tmod 512 =
      region.iSectorStart * 512 + p := by
    rw [hring.storage,Int.tdiv_eq_ediv_of_nonneg hrange.1,Int.tmod_eq_emod_of_nonneg hrange.1]
    omega
  rw [hposition,Int.tmod_eq_emod_of_nonneg hrange.1] at hcard
  have hfill := zeroFill_nonneg (p % 512) n
  have hend : p + n + zeroFill (p % 512) n ≤ ring.size := by
    rw [hsize] at hrange ⊢
    unfold zeroFill
    split <;> omega
  generalize zeroFill (p % 512) n = fill at hfill hend hcard hspares
  apply hstored.append hp hfill (by omega) (by omega)
  · intro x hlow hhigh
    rw [hcard,written_inside (by omega) (by omega)]
    congr 1
    omega
  · intro x hx
    rw [hcard,written_outside (by omega) (by omega) hfill]

/-- A block that fits in front of the end of the region takes one write. -/
theorem block_appends (hring : ring.Seated region) (buffer : Bytes) {r p n unread : Int}
    {xs : List UInt8} {s : SdState} (hunread : unread = xs.length)
    (hstored : Stored s.card (region.iSectorStart * 512) ring.size r xs)
    (hp : p = wrap ring.size (r + xs.length)) (hrange : 0 ≤ p ∧ 0 < n) (hwhole : n ≤ ring.size - p)
    {blocks : List (Int × Int)}
    (hspares : SparesUnread ring.size unread (splitBlock ring.size p n ++ blocks)) :
    SparesUnread ring.size (unread + n) blocks ∧
    ∃ s', ring.writeAt env buffer 0 p n s = some (0,s') ∧
      Stored s'.card (region.iSectorStart * 512) ring.size r (xs ++ cells buffer 0 n.toNat) := by
  rw [splitBlock,if_pos hwhole] at hspares
  subst hunread
  exact ⟨hspares.2,writeAt_appends henv hring buffer 0 hstored hp (by omega) hspares.1⟩

/-- Any other block takes a write up to the end of the region and one at its beginning. -/
theorem split_appends (hring : ring.Seated region) (buffer : Bytes) {r p n unread : Int}
    {xs : List UInt8} {s : SdState} (hunread : unread = xs.length)
    (hstored : Stored s.card (region.iSectorStart * 512) ring.size r xs)
    (hp : p = wrap ring.size (r + xs.length)) (hr : 0 ≤ r ∧ r < ring.size)
    (hrange : 0 ≤ p ∧ p < ring.size) (hsplit : ¬n ≤ ring.size - p) (hfits : unread + n ≤ ring.size)
    {blocks : List (Int × Int)}
    (hspares : SparesUnread ring.size unread (splitBlock ring.size p n ++ blocks)) :
    SparesUnread ring.size (unread + n) blocks ∧
    ∃ s₁ s₂, ring.writeAt env buffer 0 p (ring.size - p) s = some (0,s₁) ∧
      ring.write env buffer (ring.size - p) 0 (n - (ring.size - p)) 0 s₁ = some (0,s₂) ∧
      Stored s₂.card (region.iSectorStart * 512) ring.size r (xs ++ cells buffer 0 n.toNat) := by
  rw [splitBlock,if_neg hsplit] at hspares
  obtain ⟨hlow,hhigh,hrest⟩ := hspares
  subst hunread
  obtain ⟨s₁,hwrite₁,hstored₁⟩ := writeAt_appends henv hring buffer 0 hstored hp
    (n := ring.size - p) (by omega) hlow
  have hcells : ((xs ++ cells buffer 0 (ring.size - p).toNat).length : Int) =
      xs.length + (ring.size - p) := by
    rw [List.length_append,cells_length]
    omega
  have hzero : 0 = wrap ring.size (r + (xs ++ cells buffer 0 (ring.size - p).toNat).length) := by
    rw [hcells,hp]
    unfold wrap at hp ⊢
    split_ifs at hp ⊢ <;> omega
  obtain ⟨s₂,hwrite₂,hstored₂⟩ := writeAt_appends henv hring buffer (ring.size - p) hstored₁ hzero
    (n := n - (ring.size - p)) (by omega) (by rw [hcells]; exact hhigh)
  refine ⟨?_,s₁,s₂,hwrite₁,hwrite₂,?_⟩
  · have htotal : (xs.length : Int) + (ring.size - p) + (n - (ring.size - p)) = xs.length + n := by
      omega
    rwa [htotal] at hrest
  · have hjoin : n.toNat = (ring.size - p).toNat + (n - (ring.size - p)).toNat := by omega
    have hstart : (0 : Int) + (ring.size - p).toNat = ring.size - p := by omega
    rw [List.append_assoc] at hstored₂
    rw [hjoin,cells_add,hstart]
    exact hstored₂

omit henv in
theorem cells_intMemory (x : Int) : cells (intMemory x) 0 4 = intBytes x := by
  have hcells : cells (intMemory x) 0 (intBytes x).length = intBytes x := cells_image (intBytes x)
  rwa [intBytes_length] at hcells

/-- What a record of `length` bytes finds: a window with `pWrite` behind it, space for the record,
and no unread byte behind a block write. -/
structure PutFits (region : SdStorage) (ring : SdCircBuff) (r : Int) (xs : List UInt8)
    (length : Int) : Prop where
  seated : ring.Seated region
  start : 0 ≤ r ∧ r < ring.size
  pWrite : ring.pWrite = wrap ring.size (r + xs.length)
  bounds : 1 ≤ length ∧ length < 2048
  room : xs.length + length + 4 < ring.size
  spares : SparesUnread ring.size xs.length (recordBlocks ring.size ring.pWrite length)

omit henv in
theorem PutFits.range {r length : Int} {xs : List UInt8} (h : PutFits region ring r xs length) :
    0 ≤ ring.pWrite ∧ ring.pWrite < ring.size := by
  have hstart := h.start
  have hlength := h.bounds
  have hroom := h.room
  rw [h.pWrite]
  exact wrap_range _ _ (by omega)

omit henv in
/-- The position behind the header. -/
theorem PutFits.headerEnd {r length : Int} {xs : List UInt8} (h : PutFits region ring r xs length) :
    wrap ring.size (ring.pWrite + 4) = wrap ring.size (r + (xs ++ intBytes length).length) := by
  have hstart := h.start
  have hlength := h.bounds
  have hroom := h.room
  rw [h.pWrite,wrap_wrap_add (by omega) (by omega),List.length_append,intBytes_length]
  congr 1
  omega

theorem putWhole_appends {r length : Int} {xs : List UInt8} (h : PutFits region ring r xs length)
    (buffer : Bytes) {s : SdState}
    (hstored : Stored s.card (region.iSectorStart * 512) ring.size r xs)
    (hwhole : length + 4 ≤ ring.size - ring.pWrite) :
    ∃ s', ring.putWhole env buffer length s =
        some (0,{ ring with pWrite := wrap ring.size (ring.pWrite + 4 + length) },s') ∧
      Stored s'.card (region.iSectorStart * 512) ring.size r
        (xs ++ intBytes length ++ cells buffer 0 length.toNat) := by
  have hrange := h.range
  have hlength := h.bounds
  obtain ⟨hspares,s₁,hheader,hstored₁⟩ := block_appends henv h.seated (intMemory length) rfl
    hstored h.pWrite (n := 4) (by omega) (by omega) h.spares
  have hnext : wrap ring.size (ring.pWrite + 4) = ring.pWrite + 4 := wrap_of_lt (by omega)
  have hmoved : { ring with pWrite := ring.pWrite + 4 }.Seated region :=
    ⟨h.seated.storage,h.seated.size,h.seated.int,h.seated.pRead,by simp only; omega⟩
  rw [show (4 : Int).toNat = 4 from rfl,cells_intMemory] at hstored₁
  rw [hnext,← List.append_nil (splitBlock _ _ length)] at hspares
  obtain ⟨-,s₂,hdata,hstored₂⟩ := block_appends henv hmoved buffer
    (by rw [List.length_append,intBytes_length]; rfl) hstored₁
    (hnext.symm.trans h.headerEnd) (n := length) (by omega) (by simp only; omega) hspares
  refine ⟨s₂,?_,hstored₂⟩
  simp only [SdCircBuff.putWhole,sizeofInt,Option.bind_eq_bind,Option.bind_some,hheader]
  have hcursor : (if ring.pWrite + 4 + length = ring.size then 0 else ring.pWrite + 4 + length) =
      wrap ring.size (ring.pWrite + 4 + length) := by
    unfold wrap
    split_ifs <;> omega
  rw [if_neg (by decide),hdata]
  exact congrArg (fun p => some ((0 : Int),{ ring with pWrite := p },s₂)) hcursor

theorem putBetween_appends {r length : Int} {xs : List UInt8}
    (h : PutFits region ring r xs length) (buffer : Bytes) {s : SdState}
    (hstored : Stored s.card (region.iSectorStart * 512) ring.size r xs)
    (hbetween : ring.size - ring.pWrite = 4) :
    ∃ s', ring.putBetween env buffer length s =
        some (0,{ ring with pWrite := wrap ring.size (ring.pWrite + 4 + length) },s') ∧
      Stored s'.card (region.iSectorStart * 512) ring.size r
        (xs ++ intBytes length ++ cells buffer 0 length.toNat) := by
  have hrange := h.range
  have hlength := h.bounds
  have hroom := h.room
  obtain ⟨hspares,s₁,hheader,hstored₁⟩ := block_appends henv h.seated (intMemory length) rfl
    hstored h.pWrite (n := 4) (by omega) (by omega) h.spares
  have hnext : wrap ring.size (ring.pWrite + 4) = 0 := by
    unfold wrap
    split <;> omega
  have hcursor : wrap ring.size (ring.pWrite + 4 + length) = length := by
    unfold wrap
    split <;> omega
  rw [show (4 : Int).toNat = 4 from rfl,cells_intMemory] at hstored₁
  rw [hnext,← List.append_nil (splitBlock _ _ length)] at hspares
  obtain ⟨-,s₂,hdata,hstored₂⟩ := block_appends henv h.seated buffer
    (by rw [List.length_append,intBytes_length]; rfl) hstored₁
    (hnext.symm.trans h.headerEnd) (n := length) (by omega) (by omega) hspares
  have hstart : ring.write env buffer 0 0 length 0 s₁ = some (0,s₂) := hdata
  refine ⟨s₂,?_,hstored₂⟩
  simp only [SdCircBuff.putBetween,sizeofInt,Option.bind_eq_bind,Option.bind_some,hheader]
  rw [if_neg (by decide),hstart,hcursor]
  rfl

theorem putHeader_appends {r length : Int} {xs : List UInt8}
    (h : PutFits region ring r xs length) {s : SdState}
    (hstored : Stored s.card (region.iSectorStart * 512) ring.size r xs)
    (hsplit : ¬length + 4 ≤ ring.size - ring.pWrite) (hbetween : ring.size - ring.pWrite ≠ 4) :
    SparesUnread ring.size (xs.length + 4)
        (splitBlock ring.size (wrap ring.size (ring.pWrite + 4)) length ++ []) ∧
    ∃ s', ring.putHeader env length s =
        some (0,{ ring with pWrite := wrap ring.size (ring.pWrite + 4) },s') ∧
      Stored s'.card (region.iSectorStart * 512) ring.size r (xs ++ intBytes length) := by
  have hrange := h.range
  have hstart := h.start
  have hlength := h.bounds
  have hroom := h.room
  have hint := h.seated.int
  have hspares := h.spares
  rw [recordBlocks,← List.append_nil (splitBlock _ _ length)] at hspares
  by_cases hwhole : 4 < ring.size - ring.pWrite
  · obtain ⟨hrest,s₁,hheader,hstored₁⟩ := block_appends henv h.seated (intMemory length) rfl
      hstored h.pWrite (n := 4) (by omega) (by omega) hspares
    rw [show (4 : Int).toNat = 4 from rfl,cells_intMemory] at hstored₁
    refine ⟨hrest,s₁,?_,hstored₁⟩
    rw [SdCircBuff.putHeader,if_pos (by simp only [SdCircBuff.behind,toUnsigned,sizeofInt]; omega)]
    simp only [sizeofInt,Option.bind_eq_bind,Option.bind_some,hheader]
    rw [if_neg (by decide),wrap_of_lt (by omega)]
    rfl
  · obtain ⟨hrest,s₁,s₂,hlow,hhigh,hstored₂⟩ := split_appends henv h.seated (intMemory length) rfl
      hstored h.pWrite hstart hrange (n := 4) (by omega) (by omega) hspares
    rw [show (4 : Int).toNat = 4 from rfl,cells_intMemory] at hstored₂
    refine ⟨hrest,s₂,?_,hstored₂⟩
    have hcursor : wrap ring.size (ring.pWrite + 4) = 4 - (ring.size - ring.pWrite) := by
      unfold wrap
      split <;> omega
    rw [SdCircBuff.putHeader,if_neg (by simp only [SdCircBuff.behind,toUnsigned,sizeofInt]; omega)]
    simp only [sizeofInt,Option.bind_eq_bind,Option.bind_some,hlow]
    rw [if_neg (by decide),hhigh,hcursor]
    rfl

theorem putData_appends {r length : Int} {xs : List UInt8} (hring : ring.Seated region)
    (hr : 0 ≤ r ∧ r < ring.size) (hp : ring.pWrite = wrap ring.size (r + xs.length))
    (hlength : 1 ≤ length) (hroom : xs.length + length < ring.size) (buffer : Bytes) {s : SdState}
    (hstored : Stored s.card (region.iSectorStart * 512) ring.size r xs)
    (hend : length ≠ ring.size - ring.pWrite)
    (hspares : SparesUnread ring.size xs.length (splitBlock ring.size ring.pWrite length ++ [])) :
    ∃ s', ring.putData env buffer length s =
        some (0,{ ring with pWrite := wrap ring.size (ring.pWrite + length) },s') ∧
      Stored s'.card (region.iSectorStart * 512) ring.size r
        (xs ++ cells buffer 0 length.toNat) := by
  have hrange : 0 ≤ ring.pWrite ∧ ring.pWrite < ring.size := by
    rw [hp]
    exact wrap_range _ _ (by omega)
  by_cases hwhole : length < ring.size - ring.pWrite
  · obtain ⟨-,s₁,hdata,hstored₁⟩ := block_appends henv hring buffer rfl hstored hp (n := length)
      (by omega) (by omega) hspares
    refine ⟨s₁,?_,hstored₁⟩
    rw [SdCircBuff.putData,if_pos hwhole]
    simp only [Option.bind_eq_bind,Option.bind_some,hdata]
    rw [if_neg (by decide),wrap_of_lt (by omega)]
    rfl
  · obtain ⟨-,s₁,s₂,hlow,hhigh,hstored₂⟩ := split_appends henv hring buffer rfl hstored hp hr
      hrange (n := length) (by omega) (by omega) hspares
    refine ⟨s₂,?_,hstored₂⟩
    have hcursor : wrap ring.size (ring.pWrite + length) = length - (ring.size - ring.pWrite) := by
      unfold wrap
      split <;> omega
    rw [SdCircBuff.putData,if_neg hwhole]
    simp only [Option.bind_eq_bind,Option.bind_some,hlow]
    rw [if_neg (by decide),hhigh]
    simp only [Option.bind_some]
    rw [if_neg (by decide),hcursor]
    rfl

/-- Whichever branch the position of `pWrite` selects, header and data go behind the window. -/
theorem putRecord_appends {r length : Int} {xs : List UInt8}
    (h : PutFits region ring r xs length) (buffer : Bytes) {s : SdState}
    (hstored : Stored s.card (region.iSectorStart * 512) ring.size r xs) :
    ∃ s', ring.putRecord env buffer length s =
        some (0,{ ring with pWrite := wrap ring.size (ring.pWrite + 4 + length) },s') ∧
      Stored s'.card (region.iSectorStart * 512) ring.size r
        (xs ++ intBytes length ++ cells buffer 0 length.toNat) := by
  have hrange := h.range
  have hstart := h.start
  have hlength := h.bounds
  have hroom := h.room
  have hint := h.seated.int
  rw [SdCircBuff.putRecord]
  by_cases hwhole : length + 4 ≤ ring.size - ring.pWrite
  · rw [if_pos (by simp only [SdCircBuff.behind,toUnsigned,sizeofInt]; omega)]
    exact putWhole_appends henv h buffer hstored hwhole
  rw [if_neg (by simp only [SdCircBuff.behind,toUnsigned,sizeofInt]; omega)]
  by_cases hbetween : ring.size - ring.pWrite = 4
  · rw [if_pos (by simp only [SdCircBuff.behind,toUnsigned,sizeofInt]; omega)]
    exact putBetween_appends henv h buffer hstored hbetween
  rw [if_neg (by simp only [SdCircBuff.behind,toUnsigned,sizeofInt]; omega)]
  obtain ⟨hspares,s₁,hheader,hstored₁⟩ := putHeader_appends henv h hstored hwhole hbetween
  have hnext := wrap_range ring.size (ring.pWrite + 4) (by omega)
  have hmoved : { ring with pWrite := wrap ring.size (ring.pWrite + 4) }.Seated region :=
    ⟨h.seated.storage,h.seated.size,hint,h.seated.pRead,hnext.1⟩
  have hend : length ≠ ring.size - wrap ring.size (ring.pWrite + 4) := by
    unfold wrap
    split <;> omega
  obtain ⟨s₂,hdata,hstored₂⟩ := putData_appends henv hmoved hstart h.headerEnd hlength.1
    (by rw [List.length_append,intBytes_length]; simp only; omega) buffer hstored₁ hend
    (by rw [List.length_append,intBytes_length]; exact hspares)
  refine ⟨s₂,?_,hstored₂⟩
  simp only [SdCircBuff.putSplit,Option.bind_eq_bind,Option.bind_some,hheader]
  rw [if_neg (by decide),hdata]
  have hsum : wrap ring.size (wrap ring.size (ring.pWrite + 4) + length) =
      wrap ring.size (ring.pWrite + 4 + length) := wrap_wrap_add (by omega) (by omega)
  simp only [hsum]

/-- A block read inside a window copies its cells. -/
theorem readAt_of_stored (hring : ring.Seated region) (buffer : Bytes) (start : Int)
    {r p k n : Int} {xs : List UInt8} {s : SdState}
    (hstored : Stored s.card (region.iSectorStart * 512) ring.size r xs) (hr : 0 ≤ r)
    (hp : p = wrap ring.size (r + k)) (hrange : 0 ≤ p ∧ 0 < n ∧ p + n ≤ ring.size)
    (hk : 0 ≤ k ∧ k + n ≤ xs.length) :
    ∃ s', ring.readAt env buffer start p n s =
        some (0,copy buffer start (image 0 xs) k n,s') ∧ s'.card = s.card := by
  obtain ⟨⟨hindex,hoffset⟩,hroom⟩ := room_of_seated hring hrange.1
  obtain ⟨s',hread,hcard⟩ := read_of_faultless henv buffer start s hoffset hrange.2.1
    (hroom.symm ▸ (by omega : n ≤ ring.size - p))
  have hposition : (ring.iSectorStart + p.tdiv 512) * 512 + p.tmod 512 =
      region.iSectorStart * 512 + p := by
    rw [hring.storage,Int.tdiv_eq_ediv_of_nonneg hrange.1,Int.tmod_eq_emod_of_nonneg hrange.1]
    omega
  rw [hposition,hstored.copy 0 hk.1 hp hr hrange.2.2 hk.2] at hread
  exact ⟨s',hread,hcard⟩

/-- A block that the end of the region splits is read in two parts, whether the first one asks
for its own bytes or for all of them. -/
theorem readSplit_of_stored (hring : ring.Seated region) (buffer : Bytes)
    {r p k n m : Int} {xs : List UInt8} {s : SdState}
    (hstored : Stored s.card (region.iSectorStart * 512) ring.size r xs)
    (hr : 0 ≤ r ∧ r < ring.size) (hp : p = wrap ring.size (r + k))
    (hrange : 0 ≤ p ∧ p < ring.size) (hsplit : ¬n ≤ ring.size - p)
    (hk : 0 ≤ k ∧ k + n ≤ xs.length) (hxs : xs.length < ring.size) (hm : ring.size - p ≤ m) :
    ∃ s₁ s₂, ring.readAt env buffer 0 p m s =
        some (0,copy buffer 0 (image 0 xs) k (ring.size - p),s₁) ∧
      ring.read env (copy buffer 0 (image 0 xs) k (ring.size - p)) (ring.size - p) 0
          (n - (ring.size - p)) 0 s₁ = some (0,copy buffer 0 (image 0 xs) k n,s₂) ∧
      s₂.card = s.card := by
  obtain ⟨s₁,hlow,hcard₁⟩ := readAt_of_stored henv hring buffer 0 hstored hr.1 hp
    (n := ring.size - p) (by omega) (by omega)
  have hcut : ring.readAt env buffer 0 p m s = ring.readAt env buffer 0 p (ring.size - p) s := by
    have hroom := (room_of_seated hring hrange.1).2
    by_cases hpast : ring.size - p < m
    · rw [SdCircBuff.readAt,read_cut (by omega),hroom]
      rfl
    · rw [show m = ring.size - p by omega]
  have hzero : 0 = wrap ring.size (r + (k + (ring.size - p))) := by
    rw [hp]
    unfold wrap at hp ⊢
    split_ifs at hp ⊢ <;> omega
  obtain ⟨s₂,hhigh,hcard₂⟩ := readAt_of_stored henv hring
    (copy buffer 0 (image 0 xs) k (ring.size - p)) (ring.size - p) (hcard₁ ▸ hstored) hr.1 hzero
    (n := n - (ring.size - p)) (by omega) (by omega)
  refine ⟨s₁,s₂,hcut.trans hlow,?_,hcard₂.trans hcard₁⟩
  have hjoin := @copy_copy _ buffer (image 0 xs) 0 k (ring.size - p) (n - (ring.size - p))
    (by omega) (by omega)
  rw [Int.zero_add,show ring.size - p + (n - (ring.size - p)) = n by omega] at hjoin
  rw [← hjoin]
  exact hhigh

/-- The header of the oldest record, and where `pRead` goes behind it. -/
theorem readHeader_of_stored (hring : ring.Seated region) (stack : Bytes) {xs : List UInt8}
    {s : SdState}
    (hstored : Stored s.card (region.iSectorStart * 512) ring.size ring.pRead xs)
    (hr : ring.pRead < ring.size) (hxs : 4 ≤ xs.length ∧ xs.length < ring.size)
    (hplace : ring.size - ring.pRead ≠ 4 ∧ ring.size - ring.pRead ≠ 8) :
    ∃ split s', ring.readHeader env stack s =
        some (0,copy stack 0 (image 0 xs) 0 4,split,s') ∧
      ring.headerEnd split = wrap ring.size (ring.pRead + 4) ∧ s'.card = s.card := by
  have hint := hring.int
  have hpRead := hring.pRead
  have hposition : ring.pRead = wrap ring.size (ring.pRead + 0) := by
    rw [Int.add_zero,wrap_of_lt hr]
  by_cases hwhole : 4 ≤ ring.size - ring.pRead
  · obtain ⟨s₁,hread,hcard⟩ := readAt_of_stored henv hring stack 0 hstored hpRead hposition
      (n := 4) (by omega) (by omega)
    refine ⟨false,s₁,?_,?_,hcard⟩
    · rw [SdCircBuff.readHeader,
        if_pos (by simp only [SdCircBuff.behind,toUnsigned,sizeofInt]; omega)]
      simp only [sizeofInt,Option.bind_eq_bind,Option.bind_some,hread]
      rfl
    · rw [SdCircBuff.headerEnd,if_neg (by decide),
        if_neg (by simp only [SdCircBuff.behind,toUnsigned,sizeofInt]; omega),
        wrap_of_lt (by omega)]
      rfl
  · obtain ⟨s₁,s₂,hlow,hhigh,hcard⟩ := readSplit_of_stored henv hring stack hstored ⟨hpRead,hr⟩
      hposition ⟨hpRead,hr⟩ hwhole (by omega) hxs.2 (Int.le_refl _)
    refine ⟨true,s₂,?_,?_,hcard⟩
    · rw [SdCircBuff.readHeader,
        if_neg (by simp only [SdCircBuff.behind,toUnsigned,sizeofInt]; omega)]
      simp only [sizeofInt,Option.bind_eq_bind,Option.bind_some,hlow]
      rw [if_neg (by decide),hhigh]
      rfl
    · rw [SdCircBuff.headerEnd,if_pos rfl]
      simp only [sizeofInt]
      unfold wrap
      split <;> omega

/-- The data of the oldest record, and where `pRead` goes behind it. -/
theorem getData_of_stored (hring : ring.Seated region) (buffer : Bytes) (length : Int)
    {r k : Int} {xs : List UInt8} {s : SdState}
    (hstored : Stored s.card (region.iSectorStart * 512) ring.size r xs)
    (hr : 0 ≤ r ∧ r < ring.size) (hp : ring.pRead = wrap ring.size (r + k))
    (hk : 0 ≤ k ∧ k + length ≤ xs.length) (hxs : xs.length < ring.size) (hpos : 0 < length)
    (hplace : ring.size - ring.pRead ≠ length ∧ ring.size - ring.pRead ≠ 2 * length) :
    ∃ s', ring.getData env buffer length s = some (0,copy buffer 0 (image 0 xs) k length,
        { ring with pRead := wrap ring.size (ring.pRead + length) },s') ∧ s'.card = s.card := by
  have hrange : 0 ≤ ring.pRead ∧ ring.pRead < ring.size := by
    rw [hp]
    exact wrap_range _ _ (by omega)
  by_cases hwhole : length ≤ ring.size - ring.pRead
  · obtain ⟨s₁,hread,hcard⟩ := readAt_of_stored henv hring buffer 0 hstored hr.1 hp
      (n := length) (by omega) hk
    refine ⟨s₁,?_,hcard⟩
    rw [SdCircBuff.getData,if_pos hwhole]
    simp only [Option.bind_eq_bind,Option.bind_some,hread]
    rw [if_neg (by decide),if_neg (by omega),wrap_of_lt (by omega)]
    rfl
  · obtain ⟨s₁,s₂,hlow,hhigh,hcard⟩ := readSplit_of_stored henv hring buffer hstored hr hp
      hrange hwhole hk hxs (m := length) (by omega)
    refine ⟨s₂,?_,hcard⟩
    have hcursor : wrap ring.size (ring.pRead + length) = length - (ring.size - ring.pRead) := by
      unfold wrap
      split <;> omega
    rw [SdCircBuff.getData,if_neg hwhole]
    simp only [Option.bind_eq_bind,Option.bind_some,hlow]
    rw [if_neg (by decide),hhigh]
    simp only [Option.bind_some]
    rw [if_neg (by decide),hcursor]
    rfl

/-- A `Put` with enough space appends the record to the queue. -/
theorem put_stores {s : SdState} {queue : SdQueue} (hlaid : Laid region ring s queue)
    (buffer : Bytes) {length : Int} (hbounds : 1 ≤ length ∧ length < 2048)
    (hroom : used queue.records + length + 4 < ring.size)
    (hspares : SparesUnread ring.size (used queue.records)
      (recordBlocks ring.size queue.pWrite length)) :
    ∃ ring' s', ring.put env buffer length s = some (length,ring',s') ∧ ring'.size = ring.size ∧
      Laid region ring' s' ⟨queue.records ++ [cells buffer 0 length.toNat],queue.pRead,
        wrap ring.size (queue.pWrite + 4 + length)⟩ := by
  have hused := used_eq_length queue.records
  have hint := hlaid.seated.int
  have hcurrent := hlaid.current
  have hlength : ((length.toNat : Nat) : Int) = length := by omega
  have hfits : PutFits region ring queue.pRead (framedQueue queue.records) length := by
    refine ⟨hlaid.seated,⟨?_,hlaid.pRead.2⟩,?_,hbounds,by omega,?_⟩
    · rw [← hlaid.pRead.1]
      exact hlaid.seated.pRead
    · rw [hused,hlaid.pWrite.1,hlaid.pWrite.2]
    · rw [hused,hlaid.pWrite.1]
      exact hspares
  obtain ⟨s₁,hrecord,hstored⟩ := putRecord_appends henv hfits buffer (s := s.trylock env)
    hlaid.stored
  have hrange := hfits.range
  have hstart := hfits.start
  have hnext := wrap_range ring.size (ring.pWrite + 4 + length) (by omega)
  refine ⟨{ ring with
      current := ring.current + (length + sizeofInt)
      pWrite := wrap ring.size (ring.pWrite + 4 + length) },s₁.unlock,?_,rfl,?_⟩
  · rw [SdCircBuff.put,if_pos (obtains_of_faultless henv s),if_neg (by omega),
      if_pos (by simp only [toUnsigned,sizeofInt]; omega),hrecord]
    simp only [Option.bind_eq_bind,Option.bind_some]
    rw [if_neg (by decide)]
    rfl
  · refine ⟨⟨hlaid.seated.storage,hlaid.seated.size,hint,hlaid.seated.pRead,hnext.1⟩,hlaid.pRead,
      ⟨?_,?_⟩,?_,?_,?_⟩
    · simp only [hlaid.pWrite.1]
    · simp only [used_concat,cells_length]
      rw [hlaid.pWrite.2,Int.add_assoc,wrap_wrap_add (by omega) (by omega)]
      exact congrArg (wrap ring.size) (by omega)
    · simp only [used_concat,cells_length,sizeofInt]
      omega
    · intro record hmem
      rcases List.mem_append.mp hmem with hold | hnew
      · exact hlaid.records record hold
      · rw [List.mem_singleton.mp hnew,cells_length]
        omega
    · simp only [framedQueue_concat,cells_length,hlength]
      exact hstored

/-- A `Put` without enough space leaves the queue as it is. -/
theorem put_refuses_full {s : SdState} {queue : SdQueue} (hlaid : Laid region ring s queue)
    (buffer : Bytes) {length : Int} (hbounds : 1 ≤ length ∧ length < 2048)
    (hroom : ¬used queue.records + length + 4 < ring.size) :
    ∃ s', ring.put env buffer length s = some (-1,ring,s') ∧ Laid region ring s' queue := by
  have hint := hlaid.seated.int
  have hcurrent := hlaid.current
  refine ⟨s.trylock env,?_,⟨hlaid.seated,hlaid.pRead,hlaid.pWrite,hlaid.current,hlaid.records,
    hlaid.stored⟩⟩
  rw [SdCircBuff.put,if_pos (obtains_of_faultless henv s),if_neg (by omega),
    if_neg (by simp only [toUnsigned,sizeofInt]; omega)]

theorem get_none {s : SdState} {queue : SdQueue} (hlaid : Laid region ring s queue)
    (hempty : queue.records = []) (stack buffer : Bytes) (length : Int) :
    ∃ s', ring.get env stack buffer length s = some (0,buffer,ring,s') ∧
      Laid region ring s' queue := by
  have hcurrent := hlaid.current.1
  rw [hempty] at hcurrent
  refine ⟨(s.trylock env).unlock,?_,⟨hlaid.seated,hlaid.pRead,hlaid.pWrite,hlaid.current,
    hlaid.records,hlaid.stored⟩⟩
  rw [SdCircBuff.get,if_pos (obtains_of_faultless henv s),
    if_neg (by rw [hcurrent]; exact fun h => h rfl)]

/-- A `Get` with room for the oldest record takes exactly that record off the queue. -/
theorem get_takes {s : SdState} {record : Record} {rest : List Record} {r w : Int}
    (hlaid : Laid region ring s ⟨record :: rest,r,w⟩) (stack buffer : Bytes) {length : Int}
    (hlength : record.length ≤ length) (hplace : KeepsPlace ring.size r record.length) :
    ∃ ring' s', ring.get env stack buffer length s =
        some ((record.length : Int),deliver record buffer,ring',s') ∧ ring'.size = ring.size ∧
      Laid region ring' s' ⟨rest,wrap ring.size (r + 4 + record.length),w⟩ := by
  have hint := hlaid.seated.int
  have hbounds := hlaid.records record List.mem_cons_self
  have hused := used_eq_length (record :: rest)
  obtain ⟨hcurrent,hfit⟩ := hlaid.current
  obtain ⟨hposition,hr⟩ := hlaid.pRead
  have hpRead := hlaid.seated.pRead
  simp only at hposition hr hcurrent hfit hpRead
  rw [used_cons] at hused hcurrent hfit
  have hstored := hlaid.stored
  simp only [framedQueue_cons] at hstored hused
  rw [← hposition] at hstored hplace hr
  obtain ⟨split,s₁,hheader,hnext,hcard₁⟩ := readHeader_of_stored henv hlaid.seated stack
    (s := s.trylock env) hstored hr (by omega) hplace.1
  have hlengthRange : record.length < 2 ^ 31 := by omega
  have hafter := wrap_range ring.size (ring.pRead + 4) (by omega)
  have hmoved : { ring with pRead := ring.headerEnd split }.Seated region :=
    ⟨hlaid.seated.storage,hlaid.seated.size,hint,by rw [hnext]; exact hafter.1,
      hlaid.seated.pWrite⟩
  obtain ⟨s₂,hdata,hcard₂⟩ := getData_of_stored henv hmoved buffer record.length
    (k := 4) (s := s₁) (hcard₁ ▸ hstored) ⟨hpRead,hr⟩ hnext (by omega)
    (by simp only; omega) (by omega) (by rw [hnext]; exact hplace.2)
  have hend : wrap ring.size (ring.headerEnd split + record.length) =
      wrap ring.size (r + 4 + record.length) := by
    rw [hnext,wrap_wrap_add (by omega) (by omega),hposition]
  have hlast := wrap_range ring.size (ring.headerEnd split + record.length)
    (by rw [hnext]; omega)
  have hbehind := hstored
  rw [← List.append_assoc] at hbehind
  have hremaining := hbehind.drop hr (by
    simp only [List.length_append,intBytes_length,used_eq_length]; omega)
  refine ⟨{ ring with
      current := ring.current - (record.length + sizeofInt)
      pRead := wrap ring.size (ring.headerEnd split + record.length) },s₂.unlock,?_,rfl,?_⟩
  · rw [SdCircBuff.get,if_pos (obtains_of_faultless henv s),if_pos (by omega),hheader]
    simp only [Option.bind_eq_bind,Option.bind_some,intAt_framed stack hlengthRange]
    rw [if_neg (by decide),if_neg (by omega),if_neg (by omega),hdata]
    simp only [Option.bind_some]
    rw [if_neg (by decide),copy_framed]
    rfl
  · refine ⟨⟨hlaid.seated.storage,hlaid.seated.size,hint,hlast.1,hlaid.seated.pWrite⟩,
      ⟨hend,hend ▸ hlast.2⟩,⟨hlaid.pWrite.1,?_⟩,?_,?_,?_⟩
    · rw [hlaid.pWrite.2]
      simp only [used_cons]
      rw [wrap_wrap_add (by omega) (by omega)]
      exact congrArg (wrap ring.size) (by omega)
    · simp only [sizeofInt]
      omega
    · exact fun other hmem => hlaid.records other (List.mem_cons_of_mem _ hmem)
    · have hcards : s₂.unlock.card = s.card := hcard₂.trans hcard₁
      rw [hcards]
      have hposition' : wrap ring.size (r + 4 + record.length) = wrap ring.size
          (ring.pRead + (intBytes record.length ++ record).length) := by
        rw [List.length_append,intBytes_length,hposition]
        exact congrArg (wrap ring.size) (by omega)
      simp only [hposition']
      exact hremaining

end Faultless

/-- A call that the queue is about; `stack` is the memory of a local variable. -/
inductive RingCall
  | put (buffer : Bytes) (length : Int)
  | get (stack buffer : Bytes) (length : Int)

def RingCall.sdCall : RingCall → SdCall
  | .put buffer length => .put buffer length
  | .get stack buffer length => .get stack buffer length

/-- The abstract queue: a record is appended when its bytes and its length word leave a byte of
the region free, and records leave in the order they came. -/
def sdFifoCall (size : Int) (queue : SdQueue) : RingCall → SdReply × SdQueue
  | .put buffer length =>
      if used queue.records + length + 4 < size then
        (⟨length,buffer⟩,⟨queue.records ++ [cells buffer 0 length.toNat],queue.pRead,
          wrap size (queue.pWrite + 4 + length)⟩)
      else (⟨-1,buffer⟩,queue)
  | .get _ buffer _ =>
      match queue.records with
      | [] => (⟨0,buffer⟩,queue)
      | record :: rest => (⟨record.length,deliver record buffer⟩,
          ⟨rest,wrap size (queue.pRead + 4 + record.length),queue.pWrite⟩)

/-- What a caller owes: a record of fitting size, and room for the oldest one. -/
def RingCall.Asked (queue : SdQueue) : RingCall → Prop
  | .put _ length => 1 ≤ length ∧ length < 2048
  | .get _ _ length => ∀ record ∈ queue.records.head?, record.length ≤ length

/-- What the positions of the cursors have to allow. -/
def RingCall.Unharmed (size : Int) (queue : SdQueue) : RingCall → Prop
  | .put _ length => used queue.records + length + 4 < size →
      SparesUnread size (used queue.records) (recordBlocks size queue.pWrite length)
  | .get .. => ∀ record ∈ queue.records.head?, KeepsPlace size queue.pRead record.length

instance (queue : SdQueue) : ∀ call : RingCall, Decidable (call.Asked queue)
  | .put .. => inferInstanceAs (Decidable (_ ∧ _))
  | .get _ _ length =>
      inferInstanceAs (Decidable (∀ record ∈ queue.records.head?, record.length ≤ length))

instance (size : Int) (queue : SdQueue) : ∀ call : RingCall, Decidable (call.Unharmed size queue)
  | .put .. => inferInstanceAs (Decidable (_ → _))
  | .get .. => inferInstanceAs
      (Decidable (∀ record ∈ queue.records.head?, KeepsPlace size queue.pRead record.length))

/-- The record that a call has put into the queue. -/
def accepted : RingCall → SdReply → List Record
  | .put buffer length, reply => if reply.ret = length then [cells buffer 0 length.toNat] else []
  | .get .., _ => []

/-- The record that a call has handed out. -/
def returned : RingCall → SdReply → List Record
  | .put .., _ => []
  | .get .., reply => if 0 < reply.ret then [cells reply.buffer 0 reply.ret.toNat] else []

def SdCircBuff.ringCall (env : SdEnv) (object : SdCircBuff × SdState) (call : RingCall) :
    Option (SdReply × SdCircBuff × SdState) := SdCircBuff.call env object call.sdCall

theorem ringCall_refines {env : SdEnv} (henv : env.Faultless) {region : SdStorage}
    {object : SdCircBuff × SdState} {queue : SdQueue} {size : Int} (hsize : object.1.size = size)
    (hlaid : Laid region object.1 object.2 queue) (call : RingCall) (hasked : call.Asked queue)
    (hunharmed : call.Unharmed size queue) :
    ∃ object', SdCircBuff.ringCall env object call = some ((sdFifoCall size queue call).1,object') ∧
      object'.1.size = size ∧ Laid region object'.1 object'.2 (sdFifoCall size queue call).2 := by
  obtain ⟨ring,s⟩ := object
  subst hsize
  cases call with
  | put buffer length =>
    by_cases hroom : used queue.records + length + 4 < ring.size
    · obtain ⟨ring',s',hput,hsize,hlaid'⟩ := put_stores henv hlaid buffer hasked hroom
        (hunharmed hroom)
      rw [sdFifoCall,if_pos hroom]
      refine ⟨(ring',s'),?_,hsize,hlaid'⟩
      simp only [SdCircBuff.ringCall,RingCall.sdCall,SdCircBuff.call,hput,Option.bind_eq_bind,
        Option.bind_some]
      rfl
    · obtain ⟨s',hput,hlaid'⟩ := put_refuses_full henv hlaid buffer hasked hroom
      rw [sdFifoCall,if_neg hroom]
      refine ⟨(ring,s'),?_,rfl,hlaid'⟩
      simp only [SdCircBuff.ringCall,RingCall.sdCall,SdCircBuff.call,hput,Option.bind_eq_bind,
        Option.bind_some]
      rfl
  | get stack buffer length =>
    obtain ⟨records,r,w⟩ := queue
    cases records with
    | nil =>
      obtain ⟨s',hget,hlaid'⟩ := get_none henv hlaid rfl stack buffer length
      refine ⟨(ring,s'),?_,rfl,hlaid'⟩
      simp only [SdCircBuff.ringCall,RingCall.sdCall,SdCircBuff.call,hget,Option.bind_eq_bind,
        Option.bind_some]
      rfl
    | cons record rest =>
      obtain ⟨ring',s',hget,hsize,hlaid'⟩ := get_takes henv hlaid stack buffer
        (hasked record (by simp)) (hunharmed record (by simp))
      refine ⟨(ring',s'),?_,hsize,hlaid'⟩
      simp only [SdCircBuff.ringCall,RingCall.sdCall,SdCircBuff.call,hget,Option.bind_eq_bind,
        Option.bind_some]
      rfl

/-- One call keeps the balance of accepted, returned and waiting records. -/
theorem sdFifoCall_conserves (size : Int) {queue : SdQueue} {call : RingCall}
    (hasked : call.Asked queue) (hrecords : ∀ record ∈ queue.records, 1 ≤ record.length) :
    queue.records ++ accepted call (sdFifoCall size queue call).1 =
        returned call (sdFifoCall size queue call).1 ++ (sdFifoCall size queue call).2.records ∧
      ∀ record ∈ (sdFifoCall size queue call).2.records, 1 ≤ record.length := by
  cases call with
  | put buffer length =>
    have hlength : 1 ≤ length := hasked.1
    by_cases hroom : used queue.records + length + 4 < size
    · rw [sdFifoCall,if_pos hroom]
      refine ⟨by simp only [accepted,returned,if_true,List.nil_append],fun record hmem => ?_⟩
      rcases List.mem_append.mp hmem with hold | hnew
      · exact hrecords record hold
      · rw [List.mem_singleton.mp hnew,cells_length]
        omega
    · rw [sdFifoCall,if_neg hroom]
      refine ⟨?_,hrecords⟩
      rw [accepted,if_neg (by simp only; omega),List.append_nil]
      rfl
  | get stack buffer length =>
    obtain ⟨records,r,w⟩ := queue
    cases records with
    | nil => exact ⟨rfl,hrecords⟩
    | cons record rest =>
      have hpos := hrecords record List.mem_cons_self
      refine ⟨?_,fun other hmem => hrecords other (List.mem_cons_of_mem _ hmem)⟩
      simp only [sdFifoCall,accepted,returned,Int.toNat_natCast,cells_deliver,List.append_nil]
      rw [if_pos (by omega)]
      rfl

/-- What has been accepted is what has been handed out, in the same order, and what still waits. -/
theorem sdFifo_conserves {size : Int} {ok : SdQueue → RingCall → Prop}
    (hok : ∀ queue call, ok queue call → call.Asked queue) (calls : List RingCall)
    (queue : SdQueue) (hrecords : ∀ record ∈ queue.records, 1 ≤ record.length)
    (hcalls : Transition.Admissible (sdFifoCall size) ok queue calls) :
    let result := Transition.runTotal (sdFifoCall size) queue calls
    queue.records ++ (List.zipWith accepted calls result.1).flatten =
      (List.zipWith returned calls result.1).flatten ++ result.2.records := by
  induction calls generalizing queue with
  | nil => simp [Transition.runTotal]
  | cons call calls ih =>
    obtain ⟨hfirst,hrecords'⟩ := sdFifoCall_conserves size
      (hok queue call hcalls.1) hrecords
    have hrest := ih _ hrecords' hcalls.2
    simp only [Transition.runTotal,List.zipWith_cons_cons,List.flatten_cons]
    rw [← List.append_assoc,hfirst,List.append_assoc,hrest,List.append_assoc]

theorem laid_new (env : SdEnv) (memory : SdStorage) {maxSectors iSectStart nSects : Int}
    (hcard : nSects < maxSectors) (hregion : 1 ≤ nSects ∧ nSects * 512 < 2 ^ 31) (s : SdState) :
    Laid ⟨iSectStart,nSects⟩ (SdCircBuff.new env memory maxSectors iSectStart nSects s).1
      (SdCircBuff.new env memory maxSectors iSectStart nSects s).2 ⟨[],0,0⟩ := by
  have hnew : SdStorage.new memory maxSectors iSectStart nSects = ⟨iSectStart,nSects⟩ :=
    if_pos hcard
  have hsize : (SdCircBuff.new env memory maxSectors iSectStart nSects s).1.size = nSects * 512 :=
    rfl
  have hseated : (SdCircBuff.new env memory maxSectors iSectStart nSects s).1.Seated
      ⟨iSectStart,nSects⟩ :=
    ⟨hnew,rfl,by omega,Int.le_refl 0,Int.le_refl 0⟩
  refine ⟨hseated,⟨rfl,by rw [hsize]; simp only; omega⟩,⟨rfl,?_⟩,
    ⟨rfl,by rw [hsize]; simp only [used_nil]; omega⟩,?_,stored_nil _ _ _ _⟩
  · rw [hsize]
    exact (wrap_of_lt (by simp only; omega)).symm
  · intro record hmem
    cases hmem

/-- On a faultless card with the locks available, calls that the positions of the cursors allow
are answered from construction on as the abstract queue answers them: what has been accepted is
what has been returned, in order and byte for byte, and what still waits. The cursors stay in
the region. -/
theorem sdCircBuff_fifo {env : SdEnv} (henv : env.Faultless) (memory : SdStorage)
    {maxSectors iSectStart nSects : Int} (hcard : nSects < maxSectors)
    (hregion : 1 ≤ nSects ∧ nSects * 512 < 2 ^ 31) (s : SdState) (calls : List RingCall)
    (hcalls : Transition.Admissible (sdFifoCall (nSects * 512))
      (fun queue call => call.Asked queue ∧ call.Unharmed (nSects * 512) queue) ⟨[],0,0⟩ calls) :
    ∃ replies object, Transition.run (SdCircBuff.ringCall env)
        (SdCircBuff.new env memory maxSectors iSectStart nSects s) calls = some (replies,object) ∧
      let result := Transition.runTotal (sdFifoCall (nSects * 512)) ⟨[],0,0⟩ calls
      replies = result.1 ∧
      (List.zipWith accepted calls replies).flatten =
        (List.zipWith returned calls replies).flatten ++ result.2.records ∧
      (0 ≤ object.1.pRead ∧ object.1.pRead < nSects * 512) ∧
      (0 ≤ object.1.pWrite ∧ object.1.pWrite < nSects * 512) ∧
      Laid ⟨iSectStart,nSects⟩ object.1 object.2 result.2 := by
  obtain ⟨object,hrun,hsize,hlaid⟩ := Transition.run_refines
    (R := fun (object : SdCircBuff × SdState) queue => object.1.size = nSects * 512 ∧
      Laid ⟨iSectStart,nSects⟩ object.1 object.2 queue)
    (fun object queue call hrel hok => ringCall_refines henv hrel.1 hrel.2 call hok.1 hok.2)
    calls _ ⟨[],0,0⟩ ⟨rfl,laid_new env memory hcard hregion s⟩ hcalls
  have hconserved := sdFifo_conserves (fun _ _ h => h.1) calls ⟨[],0,0⟩
    (fun record hmem => by cases hmem) hcalls
  have hpWrite := wrap_range object.1.size (object.1.pRead + used
    (Transition.runTotal (sdFifoCall (nSects * 512)) ⟨[],0,0⟩ calls).2.records)
    (by
      have hpRead := hlaid.seated.pRead
      have hread := hlaid.pRead
      have hcurrent := hlaid.current
      omega)
  rw [hlaid.pRead.1,← hlaid.pWrite.2,← hlaid.pWrite.1,hsize] at hpWrite
  have hread := hlaid.pRead
  rw [hsize] at hread
  exact ⟨_,object,hrun,rfl,hconserved,⟨hlaid.seated.pRead,by omega⟩,hpWrite,hlaid⟩

/-- Two records through a region of one sector. -/
theorem sdCircBuff_fifo_twoRecords : ∃ replies object,
    Transition.run (SdCircBuff.ringCall faultlessEnv)
        (SdCircBuff.new faultlessEnv ⟨0,0⟩ 1000 100 1 erased)
        [.put (fun _ => 7) 3,.put (fun _ => 8) 5,.get (fun _ => 0) (fun _ => 0) 5,
          .get (fun _ => 0) (fun _ => 0) 5] = some (replies,object) ∧
      (List.zipWith returned [.put (fun _ => 7) 3,.put (fun _ => 8) 5,
        .get (fun _ => 0) (fun _ => 0) 5,.get (fun _ => 0) (fun _ => 0) 5] replies).flatten =
          [[7,7,7],[8,8,8,8,8]] := by
  obtain ⟨replies,object,hrun,hreplies,-⟩ := @sdCircBuff_fifo
    faultlessEnv ⟨fun _ => rfl,fun _ => rfl⟩ ⟨0,0⟩ 1000 100 1 (by decide) (by decide) erased
    [.put (fun _ => 7) 3,.put (fun _ => 8) 5,.get (fun _ => 0) (fun _ => 0) 5,
      .get (fun _ => 0) (fun _ => 0) 5] (by decide)
  refine ⟨replies,object,hrun,?_⟩
  rw [hreplies]
  decide

/-- A record that ends as many bytes in front of the end of the region as it has takes `pRead`
back to the beginning, where it is returned once more in place of the record behind it; and the
header of a record at the beginning of the region clears the one that still waits behind it. -/
theorem sdCircBuff_notFifo :
    (Transition.Admissible (sdFifoCall 512) (fun queue call => call.Asked queue) ⟨[],0,0⟩
        [.put (fun _ => 7) 254,.get (fun _ => 0) (fun _ => 0) 512,.put (fun _ => 9) 1,
          .get (fun _ => 0) (fun _ => 0) 512] ∧
      (Transition.run (SdCircBuff.ringCall faultlessEnv)
        (SdCircBuff.new faultlessEnv ⟨0,0⟩ 1000 100 1 erased)
        [.put (fun _ => 7) 254,.get (fun _ => 0) (fun _ => 0) 512,.put (fun _ => 9) 1,
          .get (fun _ => 0) (fun _ => 0) 512]).map
        (fun result => result.1.map fun reply => (reply.ret,reply.buffer 0)) =
          some [(254,7),(254,7),(1,9),(254,7)]) ∧
    Transition.Admissible (sdFifoCall 512) (fun queue call => call.Asked queue) ⟨[],0,0⟩
        [.put (fun _ => 7) 200,.put (fun _ => 8) 200,.get (fun _ => 0) (fun _ => 0) 512,
          .put (fun _ => 9) 100,.put (fun _ => 9) 50,.get (fun _ => 0) (fun _ => 0) 512] ∧
      (Transition.run (SdCircBuff.ringCall faultlessEnv)
        (SdCircBuff.new faultlessEnv ⟨0,0⟩ 1000 100 1 erased)
        [.put (fun _ => 7) 200,.put (fun _ => 8) 200,.get (fun _ => 0) (fun _ => 0) 512,
          .put (fun _ => 9) 100,.put (fun _ => 9) 50,
          .get (fun _ => 0) (fun _ => 0) 512]).map
        (fun result => result.1.map SdReply.ret) = some [200,200,200,100,50,-1] := by
  refine ⟨⟨?_,?_⟩,?_,?_⟩ <;> decide +kernel

end Pyrn.Storage
