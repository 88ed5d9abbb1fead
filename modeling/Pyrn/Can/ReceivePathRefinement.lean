import Pyrn.Can.ReceivePath

/-!
# The receive path keeps the frames of each bus in order

In every interleaving of the interrupts and the main loop, the frames accepted for a bus are
the frames dispatched for it, the frame in the hands of the main loop and the pending frames,
in this order.
-/

namespace Pyrn.Can

open CANFifoMessage

structure Queued (st : CANInterface) (queues : RxQueues) : Prop where
  fifo1 : Holds st.fifo1RxMsg queues.queue1
  fifo2 : Holds st.fifo2RxMsg queues.queue2
  msg_eq : st.msg = queues.msg

theorem queued_new (rxOvf : Bool) : Queued (CANInterface.new rxOvf) ⟨[],[],none⟩ :=
  ⟨holds_new,holds_new,rfl⟩

/-- `put` as the abstract queue sees it. -/
theorem put_offers {fifo : CANFifoMessage} {queue : List CANMessage} (hfifo : Holds fifo queue)
    (bus : UInt8) (m : CANMessage) : ∃ stored fifo', fifo.put m = some (stored,fifo') ∧
      CANInterface.putEvent bus m stored = (offer bus queue m).1 ∧
        Holds fifo' (offer bus queue m).2 := by
  by_cases hroom : queue.length < fifoSize - 1
  · obtain ⟨fifo',hput,hfifo'⟩ := put_accepts hfifo hroom m
    rw [offer,if_pos hroom]
    exact ⟨true,fifo',hput,rfl,hfifo'⟩
  · have hlength := hfifo.pending_length
    have hput := put_refuses hfifo (by omega) m
    rw [offer,if_neg hroom]
    exact ⟨false,fifo,hput,rfl,hfifo⟩

/-- `get` as the abstract queue sees it. -/
theorem get_polls {fifo : CANFifoMessage} {queue : List CANMessage} (hfifo : Holds fifo queue) :
    ∃ fifo', fifo.get = some (queue.head?,fifo') ∧ Holds fifo' queue.tail := by
  cases queue with
  | nil => exact ⟨fifo,get_empty hfifo,hfifo⟩
  | cons data queue => exact get_oldest hfifo

theorem step_refines {st : CANInterface} {queues : RxQueues} (hst : Queued st queues)
    (input : RxStep) :
    ∃ st', st.step input = some ((rxStep queues input).1,st') ∧
      Queued st' (rxStep queues input).2 := by
  obtain ⟨hfifo1,hfifo2,hmsg⟩ := hst
  cases input with
  | clearOvf => exact ⟨_,rfl,hfifo1,hfifo2,hmsg⟩
  | rxCbCan1 frame =>
    cases frame with
    | none => exact ⟨st,rfl,hfifo1,hfifo2,hmsg⟩
    | some m =>
      obtain ⟨stored,fifo,hput,hevent,hfifo⟩ := put_offers hfifo1 1 m
      refine ⟨{ st with fifo1RxMsg := fifo, rxOvf := !stored },?_,hfifo,hfifo2,hmsg⟩
      rw [CANInterface.step,CANInterface.rxCbCan1,hput]
      change some (CANInterface.putEvent 1 m stored,_) = _
      rw [hevent]
      rfl
  | rxCbCan2 frame =>
    cases frame with
    | none => exact ⟨st,rfl,hfifo1,hfifo2,hmsg⟩
    | some m =>
      obtain ⟨stored,fifo,hput,hevent,hfifo⟩ := put_offers hfifo2 2 m
      refine ⟨{ st with fifo2RxMsg := fifo, rxOvf := !stored },?_,hfifo1,hfifo,hmsg⟩
      rw [CANInterface.step,CANInterface.rxCbCan2,hput]
      change some (CANInterface.putEvent 2 m stored,_) = _
      rw [hevent]
      rfl
  | main bus =>
    rw [CANInterface.step,CANInterface.mainStep,rxStep,hmsg]
    cases hhand : queues.msg with
    | some held => exact ⟨_,rfl,hfifo1,hfifo2,rfl⟩
    | none =>
      rw [hhand] at hmsg
      by_cases hbus1 : bus = 1
      · obtain ⟨fifo,hget,hfifo⟩ := get_polls hfifo1
        refine ⟨⟨fifo,st.fifo2RxMsg,st.rxOvf,queues.queue1.head?.map fun m => (bus,m)⟩,?_,?_⟩
        · simp only [CANInterface.getFromRxFifo,if_pos hbus1,hget]
          rfl
        · simp only [if_pos hbus1]
          exact ⟨hfifo,hfifo2,rfl⟩
      · by_cases hbus2 : bus = 2
        · obtain ⟨fifo,hget,hfifo⟩ := get_polls hfifo2
          refine ⟨⟨st.fifo1RxMsg,fifo,st.rxOvf,queues.queue2.head?.map fun m => (bus,m)⟩,?_,?_⟩
          · simp only [CANInterface.getFromRxFifo,if_neg hbus1,if_pos hbus2,hget]
            rfl
          · simp only [if_neg hbus1,if_pos hbus2]
            exact ⟨hfifo1,hfifo,rfl⟩
        · refine ⟨st,?_,?_⟩
          · simp only [CANInterface.getFromRxFifo,if_neg hbus1,if_neg hbus2]
            rfl
          · simp only [if_neg hbus1,if_neg hbus2]
            exact ⟨hfifo1,hfifo2,hmsg.trans hhand.symm⟩

theorem dispatchedOn_offer (bus b : UInt8) (queue : List CANMessage) (m : CANMessage) :
    dispatchedOn bus (offer b queue m).1 = [] := by
  by_cases hroom : queue.length < fifoSize - 1
  · rw [offer,if_pos hroom]
    rfl
  · rw [offer,if_neg hroom]
    rfl

theorem acceptedOn_offer_of_ne {bus b : UInt8} (hb : b ≠ bus) (queue : List CANMessage)
    (m : CANMessage) : acceptedOn bus (offer b queue m).1 = [] := by
  by_cases hroom : queue.length < fifoSize - 1
  · rw [offer,if_pos hroom]
    exact if_neg hb
  · rw [offer,if_neg hroom]
    rfl

theorem offer_conserves (bus : UInt8) (queue : List CANMessage) (m : CANMessage) :
    queue ++ acceptedOn bus (offer bus queue m).1 = (offer bus queue m).2 := by
  by_cases hroom : queue.length < fifoSize - 1
  · simp [offer,if_pos hroom,acceptedOn]
  · simp [offer,if_neg hroom,acceptedOn]

/-- The frames of a bus on their way to the dispatcher. -/
def RxQueues.onTheWay (queues : RxQueues) (bus : UInt8) : List CANMessage :=
  heldFor bus queues.msg ++ queues.pending bus

/-- A poll moves the oldest frame into the hands of the main loop. -/
theorem heldFor_append_tail (bus : UInt8) (queue : List CANMessage) :
    heldFor bus (queue.head?.map fun m => (bus,m)) ++ queue.tail = queue := by
  cases queue with
  | nil => rfl
  | cons m queue => simp [heldFor]

theorem heldFor_of_ne {bus b : UInt8} (hb : b ≠ bus) (queue : List CANMessage) :
    heldFor bus (queue.head?.map fun m => (b,m)) = [] := by
  cases queue with
  | nil => rfl
  | cons m queue => exact if_neg hb

theorem rxStep_conserves (bus : UInt8) (queues : RxQueues) (input : RxStep) :
    queues.onTheWay bus ++ acceptedOn bus (rxStep queues input).1 =
      dispatchedOn bus (rxStep queues input).1 ++ (rxStep queues input).2.onTheWay bus := by
  cases input with
  | clearOvf => exact List.append_nil _
  | rxCbCan1 frame =>
    cases frame with
    | none => exact List.append_nil _
    | some m =>
      rw [rxStep,dispatchedOn_offer,List.nil_append,RxQueues.onTheWay,List.append_assoc]
      by_cases hbus : bus = 1
      · rw [hbus,RxQueues.pending,if_pos rfl,offer_conserves]
        rfl
      · rw [acceptedOn_offer_of_ne (Ne.symm hbus),List.append_nil,RxQueues.pending,if_neg hbus,
          RxQueues.onTheWay,RxQueues.pending,if_neg hbus]
  | rxCbCan2 frame =>
    cases frame with
    | none => exact List.append_nil _
    | some m =>
      rw [rxStep,dispatchedOn_offer,List.nil_append,RxQueues.onTheWay,List.append_assoc]
      by_cases hbus : bus = 2
      · rw [hbus,RxQueues.pending,if_neg (by decide),if_pos rfl,offer_conserves]
        rfl
      · rw [acceptedOn_offer_of_ne (Ne.symm hbus),List.append_nil]
        simp only [RxQueues.onTheWay,RxQueues.pending,if_neg hbus]
  | main polled =>
    obtain ⟨queue1,queue2,msg⟩ := queues
    cases msg with
    | some held =>
      simp only [rxStep,RxQueues.onTheWay,heldFor,acceptedOn,dispatchedOn]
      rw [List.append_nil,List.nil_append]
      rfl
    | none =>
      by_cases hpolled1 : polled = 1
      · subst hpolled1
        rw [rxStep,if_pos rfl]
        by_cases hbus : bus = 1
        · subst hbus
          exact (List.append_nil _).trans (heldFor_append_tail 1 queue1).symm
        · simp only [RxQueues.onTheWay,RxQueues.pending,if_neg hbus,
            heldFor_of_ne (Ne.symm hbus) queue1]
          exact List.append_nil _
      · by_cases hpolled2 : polled = 2
        · subst hpolled2
          rw [rxStep,if_neg (by decide),if_pos rfl]
          by_cases hbus : bus = 2
          · subst hbus
            exact (List.append_nil _).trans (heldFor_append_tail 2 queue2).symm
          · simp only [RxQueues.onTheWay,RxQueues.pending,if_neg hbus,
              heldFor_of_ne (Ne.symm hbus) queue2]
            exact List.append_nil _
        · rw [rxStep,if_neg hpolled1,if_neg hpolled2]
          exact List.append_nil _

theorem acceptedOn_rxStep_of_ne {bus : UInt8} (hbus1 : bus ≠ 1) (hbus2 : bus ≠ 2)
    (queues : RxQueues) (input : RxStep) : acceptedOn bus (rxStep queues input).1 = [] := by
  cases input with
  | clearOvf => rfl
  | rxCbCan1 frame =>
    cases frame with
    | none => rfl
    | some m => exact acceptedOn_offer_of_ne (Ne.symm hbus1) queues.queue1 m
  | rxCbCan2 frame =>
    cases frame with
    | none => rfl
    | some m => exact acceptedOn_offer_of_ne (Ne.symm hbus2) queues.queue2 m
  | main polled =>
    rw [rxStep]
    split
    · rfl
    · split_ifs <;> rfl

theorem Queued.fifo {st : CANInterface} {queues : RxQueues} (hst : Queued st queues)
    {bus : UInt8} (hbus : bus = 1 ∨ bus = 2) : Holds (st.fifo bus) (queues.pending bus) := by
  rcases hbus with rfl | rfl
  · exact hst.fifo1
  · exact hst.fifo2

/-- The interrupt of a bus refuses a frame exactly when the queue of that bus is full. -/
theorem refused_iff {st : CANInterface} {queues : RxQueues} (hst : Queued st queues)
    {bus : UInt8} (hbus : bus = 1 ∨ bus = 2) (m : CANMessage) :
    (∃ st', st.step (CANInterface.rxCb bus (some m)) = some (.refused bus m,st')) ↔
      (queues.pending bus).length = fifoSize - 1 := by
  have hlength := (hst.fifo hbus).pending_length
  have hoffer : (rxStep queues (CANInterface.rxCb bus (some m))).1 =
      (offer bus (queues.pending bus) m).1 := by
    rcases hbus with rfl | rfl <;> rfl
  obtain ⟨st',hstep,-⟩ := step_refines hst (CANInterface.rxCb bus (some m))
  rw [hoffer] at hstep
  by_cases hroom : (queues.pending bus).length < fifoSize - 1
  · rw [offer,if_pos hroom] at hstep
    rw [hstep]
    simp
    omega
  · rw [offer,if_neg hroom] at hstep
    exact iff_of_true ⟨st',hstep⟩ (by omega)

/-- In every interleaving each bus dispatches what it has accepted, in order. -/
theorem receivePath_in_order (rxOvf : Bool) (steps : List RxStep) :
    ∃ events st, Transition.run CANInterface.step (CANInterface.new rxOvf) steps =
        some (events,st) ∧
      (∀ bus, bus ≠ 1 → bus ≠ 2 → events.flatMap (dispatchedOn bus) = []) ∧
      ∀ bus, bus = 1 ∨ bus = 2 → ∃ pending,
        events.flatMap (acceptedOn bus) =
          events.flatMap (dispatchedOn bus) ++ heldFor bus st.msg ++ pending ∧
        events.flatMap (dispatchedOn bus) <+: events.flatMap (acceptedOn bus) ∧
        Holds (st.fifo bus) pending ∧
        (st.fifo bus).head < fifoSize ∧ (st.fifo bus).tail < fifoSize ∧
        (st.fifo bus).available = pending.length ∧
        (st.fifo bus).available + (st.fifo bus).free = fifoSize - 1 ∧
        ∀ m, (∃ st', st.step (CANInterface.rxCb bus (some m)) = some (.refused bus m,st')) ↔
          pending.length = fifoSize - 1 := by
  have hsteps : ∀ st queues input, Queued st queues → True →
      ∃ st', st.step input = pure ((rxStep queues input).1,st') ∧
        Queued st' (rxStep queues input).2 := fun st queues input hst _ => step_refines hst input
  obtain ⟨st,hrun,hst⟩ := Transition.run_refines hsteps steps (CANInterface.new rxOvf) _
    (queued_new rxOvf) (Transition.admissible_of_forall (fun _ _ => trivial) _ steps)
  have hbalance : ∀ bus, _ := fun bus => Transition.runTotal_conserves
    (fun queues : RxQueues => queues.onTheWay bus) (acceptedOn bus) (dispatchedOn bus)
    (rxStep_conserves bus) steps ⟨[],[],none⟩
  refine ⟨_,st,hrun,?_,?_⟩
  · intro bus hbus1 hbus2
    have hnone := List.flatMap_eq_nil_iff.mpr (Transition.forall_mem_runTotal
      (acceptedOn_rxStep_of_ne hbus1 hbus2) steps (⟨[],[],none⟩ : RxQueues))
    have hequal := hbalance bus
    rw [hnone] at hequal
    simp only [RxQueues.onTheWay,RxQueues.pending,if_neg hbus1,if_neg hbus2] at hequal
    exact (List.append_eq_nil_iff.mp hequal.symm).1
  · intro bus hbus
    have hfifo := hst.fifo hbus
    have hequal := hbalance bus
    have hempty : RxQueues.onTheWay ⟨[],[],none⟩ bus = [] := by
      rcases hbus with rfl | rfl <;> rfl
    rw [hempty,List.nil_append,RxQueues.onTheWay,← List.append_assoc,← hst.msg_eq] at hequal
    refine ⟨_,hequal,?_,hfifo,hfifo.head_lt,hfifo.tail_lt,available_eq hfifo,free_eq hfifo,
      refused_iff hst hbus⟩
    rw [hequal,List.append_assoc]
    exact List.prefix_append _ _

end Pyrn.Can
