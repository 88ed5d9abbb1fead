import Pyrn.Framework.Run
import Pyrn.Storage.RecordFifo
import Pyrn.Upload.ComHandler

/-!
# The upload stream

Whatever `AddResults` accepts waits in the storage until the next `DoServerRequest` posts it,
all of it in one frame: the frame limit exceeds the header and the storage together.
-/

namespace Pyrn.Upload

open LittleEndian Pyrn.Storage

/-- Records of the storage, as results. -/
def queued (results : List Result) : List Record := results.map Result.image

def streamLength (results : List Result) : Nat := (results.flatMap Result.image).length

theorem streamLength_cons (result : Result) (results : List Result) :
    streamLength (result :: results) = result.image.length + streamLength results := by
  rw [streamLength,List.flatMap_cons,List.length_append,streamLength]

theorem used_queued (results : List Result) :
    used (queued results) = 4 * results.length + streamLength results := by
  induction results with
  | nil => rfl
  | cons result results ih =>
    rw [queued,List.map_cons,used_cons,streamLength_cons,List.length_cons]
    rw [queued] at ih
    omega

@[simp] theorem FrameHdr.image_length (hdr : FrameHdr) : hdr.image.length = sizeofFrameHdr := by
  simp [FrameHdr.image,hdr.imei_length,hdr.idCfg_length,sizeofFrameHdr]

/-- One round of the drain loop takes the oldest result from the storage into the frame. -/
theorem drain_next {result : Result} {results : List Result} {storage : RamCircBuff}
    {txBuff : List UInt8} {currLen : Nat} (hstorage : Holds storage (queued (result :: results)))
    (hbuff : txBuff.length = comHandlerBuffSize)
    (hroom : currLen + result.image.length ≤ comHandlerBuffSize) :
    ∃ storage₁ txBuff₁, (∀ fuel, ComHandler.drain (fuel + 1) storage txBuff currLen =
        ComHandler.drain fuel storage₁ txBuff₁ (currLen + result.image.length)) ∧
      Holds storage₁ (queued results) ∧ storage₁.bSz = storage.bSz ∧
      txBuff₁.length = comHandlerBuffSize ∧
      txBuff₁.take (currLen + result.image.length) = txBuff.take currLen ++ result.image := by
  rw [comHandlerBuffSize] at hbuff hroom
  have hpositive := result.image_length
  have hprobe := probe_cons hstorage
  have hle : result.image.length ≤ 2096 := by omega
  have hbehind : result.image.length ≤ (txBuff.drop currLen).length := by
    rw [List.length_drop]
    omega
  obtain ⟨storage₁,hget,hsize₁,hstorage₁⟩ : ∃ storage₁,
      storage.get (txBuff.drop currLen) 2096 = some ((result.image.length : Int),
        result.image ++ (txBuff.drop currLen).drop result.image.length,storage₁) ∧
      storage₁.bSz = storage.bSz ∧ Holds storage₁ (queued results) :=
    get_returns hstorage hle hbehind
  have hcurrLen : (uint16 ((currLen : Int) + result.image.length)).toNat =
      currLen + result.image.length := by
    unfold uint16
    omega
  refine ⟨storage₁,txBuff.take currLen ++
    (result.image ++ (txBuff.drop currLen).drop result.image.length),?_,hstorage₁,hsize₁,?_,?_⟩
  · intro fuel
    rw [ComHandler.drain,hprobe]
    simp only [Option.bind_eq_bind,Option.bind_some]
    rw [if_neg (by omega),if_neg (by omega),if_neg (by omega),hget]
    simp only [Option.bind_some]
    rw [if_neg (by omega),hcurrLen]
  · simp only [List.length_append,List.length_take,List.length_drop,comHandlerBuffSize]
    omega
  · rw [← List.append_assoc]
    apply List.take_left'
    rw [List.length_append,List.length_take]
    omega

/-- With room for all of the stream the drain loop empties the storage into the frame. -/
theorem drain_all {results : List Result} {storage : RamCircBuff} {txBuff : List UInt8}
    {currLen : Nat} (hstorage : Holds storage (queued results))
    (hbuff : txBuff.length = comHandlerBuffSize)
    (hroom : currLen + streamLength results ≤ comHandlerBuffSize) :
    ∃ storage' txBuff', (∀ fuel, results.length < fuel →
        ComHandler.drain fuel storage txBuff currLen =
          some (.noMoreData,storage',txBuff',currLen + streamLength results)) ∧
      Holds storage' [] ∧ storage'.bSz = storage.bSz ∧ txBuff'.length = comHandlerBuffSize ∧
      txBuff'.take (currLen + streamLength results) =
        txBuff.take currLen ++ results.flatMap Result.image := by
  induction results generalizing storage txBuff currLen with
  | nil =>
    refine ⟨storage,txBuff,?_,hstorage,rfl,hbuff,by simp [streamLength]⟩
    intro fuel hfuel
    obtain ⟨fuel,rfl⟩ : ∃ n, fuel = n + 1 := ⟨fuel - 1,by omega⟩
    rw [ComHandler.drain,probe_empty hstorage]
    rfl
  | cons result results ih =>
    rw [streamLength_cons] at hroom
    have hfirst : currLen + result.image.length ≤ comHandlerBuffSize := by omega
    have hlater : currLen + result.image.length + streamLength results ≤ comHandlerBuffSize := by
      omega
    obtain ⟨storage₁,txBuff₁,hmore,hstorage₁,hsize₁,hbuff₁,hfront⟩ :=
      drain_next hstorage hbuff hfirst
    obtain ⟨storage',txBuff',hdrain,hstorage',hsize',hbuff',htake'⟩ :=
      ih hstorage₁ hbuff₁ hlater
    rw [streamLength_cons,List.flatMap_cons,← List.append_assoc,← hfront,← Nat.add_assoc]
    refine ⟨storage',txBuff',?_,hstorage',hsize'.trans hsize₁,hbuff',htake'⟩
    intro fuel hfuel
    rw [List.length_cons] at hfuel
    obtain ⟨fuel,rfl⟩ : ∃ n, fuel = n + 1 := ⟨fuel - 1,by omega⟩
    rw [hmore,hdrain fuel (by omega)]

/-- The storage holds the pending results, in a transmit buffer of the right size. -/
structure Ready (st : ComHandler) (pending : List Result) : Prop where
  storage : Holds st.dataStorage (queued pending)
  size : st.dataStorage.bSz = dataStorageSize
  buff : st.txBuff.length = comHandlerBuffSize

theorem ready_new (hasCallback : Bool) (hdr : FrameHdr) {txBuff : List UInt8}
    (hbuff : txBuff.length = comHandlerBuffSize) :
    Ready (ComHandler.new hasCallback hdr txBuff) [] :=
  ⟨holds_new (by decide) (by decide),rfl,hbuff⟩

theorem Ready.used_le {st : ComHandler} {pending : List Result} (hst : Ready st pending) :
    4 * pending.length + streamLength pending ≤ dataStorageSize := by
  have hbounds := holds_bounds hst.storage
  have hsize := hst.size
  rw [used_queued] at hbounds
  omega

/-- Is there room in the storage for a result with `len` bytes of data? -/
def Fits (pending : List Result) (len : Nat) : Prop :=
  4 + (len + 3) ≤ dataStorageSize - used (queued pending)

instance (pending : List Result) (len : Nat) : Decidable (Fits pending len) :=
  inferInstanceAs (Decidable (_ ≤ _))

/-- `AddResults` lays out the image of the result, and tells whether all of it has been stored. -/
theorem addResults_image {st : ComHandler} (hbuff : st.txBuff.length = comHandlerBuffSize)
    (sensorType : UInt8) {ldata : List UInt8} {len : UInt16} (hlen : len.toNat ≤ 2093)
    (hdata : len.toNat ≤ ldata.length) :
    ∃ txBuff, txBuff.length = comHandlerBuffSize ∧
      txBuff.take (len.toNat + 3) = Result.image ⟨sensorType,ldata.take len.toNat⟩ ∧
      ∀ r dataStorage, st.dataStorage.put txBuff ((len.toNat + 3 : Nat) : Int) =
          some (r,dataStorage) →
        st.addResults sensorType ldata len = some (decide (r = (len.toNat : Int) + 3),
          { st with txBuff := txBuff, dataStorage := dataStorage }) := by
  let n := len.toNat
  let result : Result := ⟨sensorType,ldata.take n⟩
  let head : List UInt8 := [sensorType,UInt8.ofNat (n % 256),UInt8.ofNat (n / 256)]
  have hn : (ldata.take n).length = n := by
    rw [List.length_take]
    omega
  rw [comHandlerBuffSize] at hbuff
  have hlow : UInt8.ofNat (n % 256) = UInt8.ofNat n := by
    apply UInt8.toNat_inj.mp
    simp
  have himage : result.image = head ++ ldata.take n := by
    rw [Result.image,hn]
    simp only [head,hlow]
    rfl
  have himageLength : result.image.length = n + 3 := by
    rw [Result.image_length,hn,Nat.add_comm]
  have hhead : Buffer.store st.txBuff 0 head = some (head ++ st.txBuff.drop head.length) :=
    Buffer.store_zero_of_le (by simp only [head,List.length_cons,List.length_nil]; omega)
  have hload : Buffer.load ldata 0 (n : Int) = some (ldata.take n) := Buffer.load_zero_of_le hdata
  let txBuff := result.image ++ st.txBuff.drop result.image.length
  have hstore : Buffer.store (head ++ st.txBuff.drop head.length) 3 (ldata.take n) =
      some txBuff := by
    simp only [txBuff,himage]
    apply Buffer.store_behind
    rw [← himage]
    omega
  refine ⟨txBuff,?_,List.take_left' himageLength,?_⟩
  · simp only [txBuff,List.length_append,List.length_drop,comHandlerBuffSize]
    omega
  · intro r dataStorage hput
    have hcast : (n : Int) + 3 = ((n + 3 : Nat) : Int) := by push_cast; rfl
    rw [ComHandler.addResults]
    simp only [Option.bind_eq_bind]
    rw [hhead,Option.bind_some,hload,Option.bind_some,hstore,Option.bind_some,hcast,hput]
    simp only [Option.bind_some]
    by_cases hr : r = -1
    · subst hr
      rw [if_pos rfl,decide_eq_false (by omega)]
      rfl
    · rw [if_neg hr]
      rfl

theorem addResults_ready {st : ComHandler} {pending : List Result} (hst : Ready st pending)
    (sensorType : UInt8) {ldata : List UInt8} {len : UInt16} (hlen : len.toNat ≤ 2093)
    (hdata : len.toNat ≤ ldata.length) :
    ∃ st', st.addResults sensorType ldata len =
        some (decide (Fits pending len.toNat),st') ∧
      Ready st' (if Fits pending len.toNat
        then pending ++ [⟨sensorType,ldata.take len.toNat⟩] else pending) := by
  obtain ⟨txBuff,hbuff,hfront,hadd⟩ := addResults_image hst.buff sensorType hlen hdata
  have hsize := hst.size
  have hused := hst.used_le
  rw [← used_queued] at hused
  by_cases hfits : Fits pending len.toNat
  · have hroom : (4 + (len.toNat + 3 : Nat) : Int) ≤
        st.dataStorage.bSz - used (queued pending) := by
      rw [Fits] at hfits
      omega
    have hlength : len.toNat + 3 ≤ txBuff.length := by
      rw [hbuff,comHandlerBuffSize]
      omega
    obtain ⟨dataStorage,hput,hsize',hstorage⟩ := put_accepts hst.storage hlength hroom
    rw [hfront] at hstorage
    refine ⟨{ st with txBuff := txBuff, dataStorage := dataStorage },?_,?_⟩
    · rw [hadd _ _ hput,decide_eq_true hfits,decide_eq_true (by push_cast; rfl)]
    · rw [if_pos hfits]
      refine ⟨?_,hsize'.trans hsize,hbuff⟩
      rw [queued,List.map_append]
      exact hstorage
  · have hfull : ¬(4 + (len.toNat + 3 : Nat) : Int) ≤
        st.dataStorage.bSz - used (queued pending) := by
      rw [Fits] at hfits
      omega
    have hspace : st.dataStorage.bSz + 4 + (len.toNat + 3 : Nat) < 2 ^ 32 := by
      rw [hsize,dataStorageSize]
      omega
    have hput : st.dataStorage.put txBuff ((len.toNat + 3 : Nat) : Int) =
        some (-1,st.dataStorage) := put_refuses hst.storage hspace hfull
    refine ⟨{ st with txBuff := txBuff },?_,?_⟩
    · rw [hadd _ _ hput,decide_eq_false hfits,decide_eq_false (by omega)]
    · rw [if_neg hfits]
      exact ⟨hst.storage,hsize,hbuff⟩

/-- Rounds that both loops of `DoServerRequest` may take. -/
def serveFuel : Nat := 1026

theorem fillHeader_ready {st : ComHandler} {pending : List Result} (hst : Ready st pending)
    (time : UInt32) : ∃ st', st.fillHeader time = some st' ∧ Ready st' pending := by
  have hbuff := hst.buff
  rw [comHandlerBuffSize] at hbuff
  let hdr : FrameHdr := { st.hdr with time := time, newSess := if st.first then 49 else 48 }
  have hfits : hdr.image.length ≤ st.txBuff.length := by
    rw [FrameHdr.image_length,sizeofFrameHdr]
    omega
  have hstore : Buffer.store st.txBuff 0 hdr.image =
      some (hdr.image ++ st.txBuff.drop hdr.image.length) := Buffer.store_zero_of_le hfits
  let txBuff := hdr.image ++ st.txBuff.drop hdr.image.length
  refine ⟨{ st with hdr := hdr, first := false, txBuff := txBuff },?_,?_⟩
  · rw [ComHandler.fillHeader,Option.bind_eq_bind,hstore]
    rfl
  · refine ⟨hst.storage,hst.size,?_⟩
    simp only [txBuff,List.length_append,List.length_drop,comHandlerBuffSize]
    omega

theorem post_ready {st : ComHandler} {pending : List Result} (hst : Ready st pending)
    (exchange : Exchange) (currLen : Nat) :
    (st.post exchange currLen).1.frame = st.txBuff.take currLen ∧
      Ready (st.post exchange currLen).2 pending := by
  rw [ComHandler.post]
  split_ifs
  · cases exchange.idConfig with
    | none => exact ⟨rfl,hst⟩
    | some config => exact ⟨rfl,hst.storage,hst.size,hst.buff⟩
  · exact ⟨rfl,hst⟩

/-- `DoServerRequest` posts one frame with everything that waits, and leaves nothing. -/
theorem doServerRequest_serves {st : ComHandler} {pending : List Result}
    (hst : Ready st pending) (exchanges : Nat → Exchange) :
    ∃ sent st', (∀ fuel, serveFuel ≤ fuel →
        st.doServerRequest fuel exchanges = some (.served,[sent],st')) ∧
      sent.frame.drop sizeofFrameHdr = pending.flatMap Result.image ∧ Ready st' [] := by
  obtain ⟨filled,hfill,hfilled⟩ := fillHeader_ready hst (exchanges 0).time
  have hbuff := hfilled.buff
  have hused := hfilled.used_le
  have hroom : sizeofFrameHdr + streamLength pending ≤ comHandlerBuffSize := by
    simp only [sizeofFrameHdr,comHandlerBuffSize,dataStorageSize] at *
    omega
  obtain ⟨storage,txBuff,hdrain,hstorage,hsize,hbuff',htake⟩ :=
    drain_all hfilled.storage hbuff hroom
  let drained : ComHandler := { filled with dataStorage := storage, txBuff := txBuff }
  have hdrained : Ready drained [] := ⟨hstorage,hsize.trans hfilled.size,hbuff'⟩
  obtain ⟨hframe,hpost⟩ := post_ready hdrained (exchanges 0)
    (sizeofFrameHdr + streamLength pending)
  refine ⟨(drained.post (exchanges 0) (sizeofFrameHdr + streamLength pending)).1,_,?_,?_,hpost⟩
  · intro fuel hfuel
    rw [serveFuel] at hfuel
    rw [dataStorageSize] at hused
    obtain ⟨fuel,rfl⟩ : ∃ n, fuel = n + 1 := ⟨fuel - 1,by omega⟩
    rw [ComHandler.doServerRequest,hfill,Option.bind_eq_bind,Option.bind_some,
      hdrain fuel (by omega)]
    rfl
  · rw [hframe]
    change (txBuff.take _).drop sizeofFrameHdr = _
    rw [htake]
    apply List.drop_left'
    rw [List.length_take,hbuff]
    decide

inductive Call
  | addResults (sensorType : UInt8) (ldata : List UInt8) (len : UInt16)
  | doServerRequest (exchanges : Nat → Exchange)

/-- What a call shows: the result offered to `AddResults` with the value returned, or the posts of
`DoServerRequest`. -/
inductive Reply
  | added (result : Result) (ret : Bool)
  | posted (ended : ServeEnd) (posts : List Post)
  deriving DecidableEq, Repr

def ComHandler.call (st : ComHandler) : Call → Option (Reply × ComHandler)
  | .addResults sensorType ldata len => do
      let (ret,st) ← st.addResults sensorType ldata len
      return (.added ⟨sensorType,ldata.take len.toNat⟩ ret,st)
  | .doServerRequest exchanges => do
      let (ended,posts,st) ← st.doServerRequest serveFuel exchanges
      return (.posted ended posts,st)

/-- The bytes behind the header of each posted frame. -/
def payload (posts : List Post) : List UInt8 :=
  posts.flatMap fun sent => sent.frame.drop sizeofFrameHdr

def Reply.payload : Reply → List UInt8
  | .added _ _ => []
  | .posted _ posts => Upload.payload posts

/-- The results for which `AddResults` returned true. -/
def Reply.accepted : Reply → List Result
  | .added result true => [result]
  | _ => []

/-- The data is as long as it says and leaves room for its header in the transmit buffer. -/
def Call.Bounded : Call → Prop
  | .addResults _ ldata len => len.toNat ≤ 2093 ∧ len.toNat ≤ ldata.length
  | .doServerRequest _ => True

/-- The abstract stream: the results that a call accepts and sends, and those that wait. -/
structure Traffic where
  accepted : List Result
  sent : List Result

def streamCall (pending : List Result) : Call → Traffic × List Result
  | .addResults sensorType ldata len =>
      let result : Result := ⟨sensorType,ldata.take len.toNat⟩
      if Fits pending len.toNat then (⟨[result],[]⟩,pending ++ [result]) else (⟨[],[]⟩,pending)
  | .doServerRequest _ => (⟨[],pending⟩,[])

/-- A reply that carries the traffic, from a call that ended well. -/
structure Carries (reply : Reply) (traffic : Traffic) : Prop where
  accepted_eq : reply.accepted = traffic.accepted
  payload_eq : reply.payload = traffic.sent.flatMap Result.image
  ended : ∀ ended posts, reply = .posted ended posts → ended = .served

theorem call_simulates {st : ComHandler} {pending : List Result} (call : Call)
    (hst : Ready st pending) (hcall : call.Bounded) :
    ∃ reply st', st.call call = some (reply,st') ∧ Carries reply (streamCall pending call).1 ∧
      Ready st' (streamCall pending call).2 := by
  cases call with
  | addResults sensorType ldata len =>
    obtain ⟨st',hadd,hst'⟩ := addResults_ready hst sensorType hcall.1 hcall.2
    refine ⟨.added ⟨sensorType,ldata.take len.toNat⟩ (decide (Fits pending len.toNat)),st',?_,?_⟩
    · rw [ComHandler.call,hadd]
      rfl
    · rw [streamCall]
      by_cases hfits : Fits pending len.toNat
      · rw [if_pos hfits] at hst' ⊢
        rw [decide_eq_true hfits]
        exact ⟨⟨rfl,rfl,by simp⟩,hst'⟩
      · rw [if_neg hfits] at hst' ⊢
        rw [decide_eq_false hfits]
        exact ⟨⟨rfl,rfl,by simp⟩,hst'⟩
  | doServerRequest exchanges =>
    obtain ⟨sent,st',hserve,hframe,hst'⟩ := doServerRequest_serves hst exchanges
    refine ⟨.posted .served [sent],st',?_,⟨rfl,?_,?_⟩,hst'⟩
    · rw [ComHandler.call,hserve serveFuel (Nat.le_refl _)]
      rfl
    · rw [Reply.payload,payload,List.flatMap_cons,List.flatMap_nil,List.append_nil,hframe]
      rfl
    · intro ended posts hreply
      cases hreply
      rfl

theorem streamCall_conserves (pending : List Result) (call : Call) :
    pending ++ (streamCall pending call).1.accepted =
      (streamCall pending call).1.sent ++ (streamCall pending call).2 := by
  cases call with
  | addResults sensorType ldata len =>
    rw [streamCall]
    split_ifs
    · rfl
    · exact List.append_nil _
  | doServerRequest exchanges => rfl

theorem streamCall_accepted_short (pending : List Result) (call : Call) :
    ∀ result ∈ (streamCall pending call).1.accepted, result.data.length < 2 ^ 16 := by
  intro result hresult
  cases call with
  | addResults sensorType ldata len =>
    have hlen := len.toNat_lt
    rw [streamCall] at hresult
    split_ifs at hresult
    · rw [List.mem_singleton.mp hresult,List.length_take]
      omega
    · cases hresult
  | doServerRequest exchanges => cases hresult

/-- Every run of bounded calls returns, and its posted stream is that of the accepted results but
for those that wait; after every request none waits. -/
theorem uploadStream_exact (hasCallback : Bool) (hdr : FrameHdr) (txBuff : List UInt8)
    (hbuff : txBuff.length = comHandlerBuffSize) (calls : List Call)
    (hcalls : ∀ call ∈ calls, call.Bounded) :
    ∃ replies st, Transition.run ComHandler.call (.new hasCallback hdr txBuff) calls =
        some (replies,st) ∧
      (∀ ended posts, Reply.posted ended posts ∈ replies → ended = .served) ∧
      (∃ sent pending, parseResults (replies.flatMap Reply.payload) = some sent ∧
        replies.flatMap Reply.accepted = sent ++ pending ∧
        Holds st.dataStorage (queued pending)) ∧
      ∀ exchanges, ∃ posts st', (∀ fuel, serveFuel ≤ fuel →
          st.doServerRequest fuel exchanges = some (.served,posts,st')) ∧
        st'.dataStorage.currSz = 0 ∧
        parseResults (replies.flatMap Reply.payload ++ payload posts) =
          some (replies.flatMap Reply.accepted) := by
  have hadmissible : ∀ calls (pending : List Result), (∀ call ∈ calls, call.Bounded) →
      Transition.Admissible streamCall (fun _ call => call.Bounded) pending calls := by
    intro calls
    induction calls with
    | nil => exact fun _ _ => trivial
    | cons call calls ih =>
      intro pending hcalls
      exact ⟨hcalls call List.mem_cons_self,
        ih _ fun next hnext => hcalls next (List.mem_cons_of_mem call hnext)⟩
  obtain ⟨replies,st,hrun,hcarries,hst⟩ := Transition.run_simulates
    (fun st pending call hst hcall => call_simulates call hst hcall) calls
    (ComHandler.new hasCallback hdr txBuff) [] (ready_new hasCallback hdr hbuff)
    (hadmissible calls [] hcalls)
  let traffic := (Transition.runTotal streamCall [] calls).1
  let pending := (Transition.runTotal streamCall [] calls).2
  have haccepted : replies.flatMap Reply.accepted = traffic.flatMap Traffic.accepted :=
    Transition.flatMap_eq_of_forall₂ (hcarries.imp fun _ _ h => h.accepted_eq)
  have hpayload : replies.flatMap Reply.payload =
      (traffic.flatMap Traffic.sent).flatMap Result.image := by
    rw [List.flatMap_assoc]
    exact Transition.flatMap_eq_of_forall₂ (hcarries.imp fun _ _ h => h.payload_eq)
  have hbalance : traffic.flatMap Traffic.accepted = traffic.flatMap Traffic.sent ++ pending :=
    Transition.runTotal_conserves id Traffic.accepted Traffic.sent streamCall_conserves calls []
  have hshort : ∀ result ∈ traffic.flatMap Traffic.accepted, result.data.length < 2 ^ 16 := by
    intro result hresult
    obtain ⟨passed,hpassed,hmem⟩ := List.mem_flatMap.mp hresult
    have hall := Transition.forall_mem_runTotal
      (P := fun passed : Traffic => ∀ result ∈ passed.accepted, result.data.length < 2 ^ 16)
      streamCall_accepted_short calls []
    exact hall passed hpassed result hmem
  refine ⟨replies,st,hrun,?_,⟨traffic.flatMap Traffic.sent,pending,?_,?_,hst.storage⟩,?_⟩
  · intro ended posts hreply
    have hended := (List.forall₂_and_left replies traffic).mp
      (hcarries.imp fun _ _ h => ⟨h.ended,h.payload_eq⟩)
    exact hended.1 _ hreply ended posts rfl
  · rw [hpayload]
    apply parseResults_flatMap
    intro result hresult
    exact hshort result (by rw [hbalance]; exact List.mem_append_left _ hresult)
  · rw [haccepted,hbalance]
  · intro exchanges
    obtain ⟨sent,st',hserve,hframe,hst'⟩ := doServerRequest_serves hst exchanges
    refine ⟨[sent],st',hserve,?_,?_⟩
    · rw [(holds_bounds hst'.storage).2.2.1]
      rfl
    · rw [hpayload,payload,List.flatMap_cons,List.flatMap_nil,List.append_nil,hframe,
        ← List.flatMap_append,haccepted,← hbalance]
      exact parseResults_flatMap _ hshort

/-- Two results and a request, then one more result. -/
theorem uploadStream_exact_three :
    let hdr : FrameHdr := ⟨List.replicate 15 48,List.replicate 40 0,0,0,rfl,rfl⟩
    let reply : Exchange := ⟨0,0,0,List.replicate xferBuffSz 0,none,List.length_replicate⟩
    ∃ replies st, Transition.run ComHandler.call
        (.new true hdr (List.replicate comHandlerBuffSize 0))
        [.addResults 1 [7,8] 2,.addResults 2 [] 0,.doServerRequest fun _ => reply,
          .addResults 1 [9] 1] = some (replies,st) ∧
      ∃ sent pending, parseResults (replies.flatMap Reply.payload) = some sent ∧
        replies.flatMap Reply.accepted = sent ++ pending := by
  intro hdr reply
  obtain ⟨replies,st,hrun,-,⟨sent,pending,hparse,hsplit,-⟩,-⟩ := uploadStream_exact true hdr
    (List.replicate comHandlerBuffSize 0) List.length_replicate
    [.addResults 1 [7,8] 2,.addResults 2 [] 0,.doServerRequest fun _ => reply,.addResults 1 [9] 1]
    (by simp [Call.Bounded])
  exact ⟨replies,st,hrun,sent,pending,hparse,hsplit⟩

end Pyrn.Upload
