import DeviceAgent.SendCurrentData
import DeviceAgent.FrameCodec
import DeviceAgent.AckCodec

/-!
# The bytes of a measurement on the wire

`SendCurrentData` takes the length of what it writes from a struct of 74 bytes and
not from the packet, while frames of any length from nine bytes on get into the
queue.  A shorter packet is sent with what lies behind it in the storage, a longer
one without its end.
-/

namespace DeviceAgent

open CommunicationCommand

namespace Packet

theorem dataPacketFrame_eq_iff (p : Packet) :
    p.dataPacketFrame = p.strCache ↔ p.getSize = sizeofDataPacketFrame := by
  constructor
  · intro h
    rw [getSize, ← h, dataPacketFrame, List.length_map, List.length_range]
  · intro hsize
    apply List.ext_getElem
    · rw [dataPacketFrame, List.length_map, List.length_range]
      exact hsize.symm
    · intro i _ hi
      simp only [dataPacketFrame, List.getElem_map, List.getElem_range, byteAt_of_lt p hi]
      exact List.getD_eq_getElem _ _ hi

end Packet

namespace Sender

/-! ## What reaches the call of `Write` -/

theorem queue_step (i : SendInput) (s : Sender) : (s.step i).queue <:+ s.queue := by
  have hmoves := step_moves i s
  generalize s.step i = s' at hmoves
  cases hmoves with
  | discard packet rest hpoint hqueue hcmd =>
      rw [hqueue]
      exact List.suffix_cons packet rest
  | acknowledged => exact List.tail_suffix s.queue
  | _ => exact List.suffix_refl s.queue

theorem drive_write {queue : List Packet} {port : TCPPort} {bExt : Bool} {input : ℕ → SendInput}
    {n : ℕ} {packet : Packet}
    (h : (Transition.drive step input n (call queue port bExt)).point = .write packet) :
    packet ∈ queue ∧ packet.frameCommandType = dataRequest := by
  have hkeep : ∀ (i : SendInput) (s : Sender), True → s.queue <:+ queue ∧ Serves s →
      (s.step i).queue <:+ queue ∧ Serves (s.step i) :=
    fun i s _ hs ↦ ⟨(queue_step i s).trans hs.1, hs.2.step⟩
  have hstart : (call queue port bExt).queue <:+ queue ∧ Serves (call queue port bExt) :=
    ⟨List.suffix_refl queue, serves_of_outside rfl⟩
  obtain ⟨hsuffix, hserves⟩ :
      (Transition.drive step input n (call queue port bExt)).queue <:+ queue ∧
        Serves (Transition.drive step input n (call queue port bExt)) :=
    Transition.drive_invariant (fun n ↦ trivial) hkeep hstart n
  obtain ⟨hhead, hcmd⟩ := hserves packet (by rw [h]; rfl)
  exact ⟨hsuffix.mem (List.mem_of_mem_head? hhead), hcmd⟩

/-! ## Every measurement can get there -/

/-- The sender can be brought from `s` to `s'` by some behaviour of the outside. -/
def Leads : Sender → Sender → Prop :=
  Relation.ReflTransGen fun s s' ↦ ∃ i : SendInput, s.step i = s'

theorem leads_step (i : SendInput) (s : Sender) : Leads s (s.step i) :=
  .single ⟨i, rfl⟩

/-- The server acknowledges the packet `no`. -/
def acknowledging (no : Word) : SendInput :=
  { silence with
    received := ([⟨true, 0x01#8, (0x72#8, 0x61#8), no⟩].flatMap Answer.bytes).map Recv.data ++
      [.again] }

section Steps

variable {s : Sender} {packet : Packet} {rest : List Packet}

theorem step_take (hpoint : s.point = .loop) (hqueue : s.queue = packet :: rest)
    (hcmd : packet.frameCommandType = dataRequest) (i : SendInput) :
    (s.step i).point = .write packet ∧ (s.step i).queue = s.queue ∧ (s.step i).port = s.port := by
  simp [step, hpoint, hqueue, hcmd]

theorem step_discard (hpoint : s.point = .loop) (hqueue : s.queue = packet :: rest)
    (hcmd : packet.frameCommandType ≠ dataRequest) (i : SendInput) :
    (s.step i).point = .loop ∧ (s.step i).queue = rest := by
  simp [step, hpoint, hqueue, hcmd, DataPacketQueue.pop]

theorem step_notConnected (hpoint : s.point = .write packet) (hport : s.port.bConnected = false) :
    (s.step silence).point = .unconnected ∧ (s.step silence).queue = s.queue := by
  simp [step, hpoint, hport, TCPPort.write, caught, unConnected]

theorem step_reconnect (hpoint : s.point = .unconnected) :
    (s.step silence).point = .loop ∧ (s.step silence).queue = s.queue ∧
      (s.step silence).port.bConnected = true := by
  simp [step, hpoint, silence, negoiateDataChannel, connectLoop, TCPPort.connect, negotiated]

theorem step_sent (hpoint : s.point = .write packet) (hport : s.port.bConnected = true) :
    (s.step silence).point = .readAck packet ∧ (s.step silence).queue = s.queue ∧
      (s.step silence).port = s.port := by
  simp [step, hpoint, hport, TCPPort.write, silence]

theorem step_answered (hpoint : s.point = .readAck packet) (hport : s.port.bConnected = true)
    (no : Word) :
    ∃ ack, (s.step (acknowledging no)).point = .judge packet ack ∧ ack.isAckNo no = true ∧
      (s.step (acknowledging no)).queue = s.queue := by
  have hack : (s.port.receiveAck (freshAck (acknowledging no))
      (acknowledging no).received).1.packet.isAckNo no = true := by
    have hread : (s.port.receiveAck (freshAck (acknowledging no))
        (acknowledging no).received).1.packet = (freshAck (acknowledging no)).clear.append
          (Answer.bytes ⟨true, 0x01#8, (0x72#8, 0x61#8), no⟩) := by
      rw [← List.flatMap_singleton Answer.bytes]
      exact TCPPort.receiveAck_answers hport _ _ fun b ↦ Recv.ne_data (by decide) b
    rw [hread]
    exact ((Packet.readsBack_long _ true _ _ no).numbered no).mpr ⟨rfl, rfl⟩
  have hmoves := moves_readAck (i := acknowledging no) hpoint
  generalize s.step (acknowledging no) = s' at hmoves
  cases hmoves with
  | answered other hother hconn =>
      obtain rfl : packet = other := SendPoint.readAck.inj (hpoint.symm.trans hother)
      exact ⟨_, rfl, hack, rfl⟩
  | cutOff other port hother hcut =>
      rw [hport] at hcut
      cases hcut
  | _ => simp_all

theorem step_acknowledged {ack : Packet} (hpoint : s.point = .judge packet ack)
    (hack : ack.isAckNo packet.getDataNo = true) :
    (s.step silence).point = .loop ∧ (s.step silence).queue = s.queue.tail := by
  simp [step, hpoint, silence, hack, Packet.isAck_of_isAckNo hack, DataPacketQueue.pop]

/-- The packet is taken again once the port has been renegotiated. -/
theorem leads_write (hpoint : s.point = .loop) (hqueue : s.queue = packet :: rest)
    (hcmd : packet.frameCommandType = dataRequest) :
    ∃ s', Leads s s' ∧ s'.point = .write packet ∧ s'.queue = s.queue ∧
      s'.port.bConnected = true := by
  obtain ⟨hpoint₁, hqueue₁, hport₁⟩ := step_take hpoint hqueue hcmd silence
  cases hport : s.port.bConnected with
  | true => exact ⟨_, leads_step silence s, hpoint₁, hqueue₁, hport₁ ▸ hport⟩
  | false =>
      obtain ⟨hpoint₂, hqueue₂⟩ := step_notConnected hpoint₁ (hport₁ ▸ hport)
      obtain ⟨hpoint₃, hqueue₃, hport₃⟩ := step_reconnect hpoint₂
      have hsame := hqueue₃.trans (hqueue₂.trans hqueue₁)
      obtain ⟨hpoint₄, hqueue₄, hport₄⟩ :=
        step_take hpoint₃ (hsame.trans hqueue) hcmd silence
      refine ⟨_, ?_, hpoint₄, hqueue₄.trans hsame, hport₄ ▸ hport₃⟩
      apply (leads_step silence s).trans
      apply (leads_step silence _).trans
      apply (leads_step silence _).trans
      exact leads_step silence _

theorem leads_pop (hpoint : s.point = .write packet) (hqueue : s.queue = packet :: rest)
    (hport : s.port.bConnected = true) :
    ∃ s', Leads s s' ∧ s'.point = .loop ∧ s'.queue = rest := by
  obtain ⟨hpoint₁, hqueue₁, hport₁⟩ := step_sent hpoint hport
  obtain ⟨ack, hpoint₂, hack, hqueue₂⟩ :=
    step_answered hpoint₁ (hport₁ ▸ hport) packet.getDataNo
  obtain ⟨hpoint₃, hqueue₃⟩ := step_acknowledged hpoint₂ hack
  refine ⟨_, ?_, hpoint₃, ?_⟩
  · apply (leads_step silence s).trans
    apply (leads_step (acknowledging packet.getDataNo) _).trans
    exact leads_step silence _
  · rw [hqueue₃, hqueue₂, hqueue₁, hqueue]
    rfl

/-- A measurement anywhere in the queue reaches the front. -/
theorem leads_loop (front : List Packet) (hpoint : s.point = .loop)
    (hqueue : s.queue = front ++ rest) :
    ∃ s', Leads s s' ∧ s'.point = .loop ∧ s'.queue = rest := by
  induction front generalizing s with
  | nil => exact ⟨s, .refl, hpoint, hqueue⟩
  | cons packet front ih =>
      by_cases hcmd : packet.frameCommandType = dataRequest
      · obtain ⟨s₁, hlead₁, hpoint₁, hqueue₁, hport₁⟩ := leads_write hpoint hqueue hcmd
        obtain ⟨s₂, hlead₂, hpoint₂, hqueue₂⟩ := leads_pop hpoint₁ (hqueue₁.trans hqueue) hport₁
        obtain ⟨s₃, hlead₃, hend⟩ := ih hpoint₂ hqueue₂
        exact ⟨s₃, (hlead₁.trans hlead₂).trans hlead₃, hend⟩
      · obtain ⟨hpoint₁, hqueue₁⟩ := step_discard hpoint hqueue hcmd silence
        obtain ⟨s₁, hlead₁, hend⟩ := ih hpoint₁ hqueue₁
        exact ⟨s₁, (leads_step silence s).trans hlead₁, hend⟩

end Steps

theorem exists_write {queue : List Packet} {packet : Packet} (hmem : packet ∈ queue)
    (hcmd : packet.frameCommandType = dataRequest) (port : TCPPort) (bExt : Bool) :
    ∃ input n,
      (Transition.drive step input n (call queue port bExt)).point = .write packet := by
  obtain ⟨front, rest, rfl⟩ := List.append_of_mem hmem
  obtain ⟨s₁, hlead₁, hpoint₁, hqueue₁⟩ :=
    leads_loop (s := call (front ++ packet :: rest) port bExt) front rfl rfl
  obtain ⟨s₂, hlead₂, hpoint₂, -⟩ := leads_write hpoint₁ hqueue₁ hcmd
  have : Nonempty SendInput := ⟨silence⟩
  obtain ⟨input, n, hdrive⟩ := Transition.exists_drive (hlead₁.trans hlead₂)
  exact ⟨input, n, by rw [hdrive, hpoint₂]⟩

/-! ## The bytes handed over -/

/-- Whatever the server does, each measurement goes out as it stands in the queue, and
is a frame again, exactly if all measurements in the queue have the size of the
struct. -/
theorem written_exactly_iff (queue : List Packet) (port : TCPPort) (bExt : Bool)
    (hqueue : ∀ p ∈ queue, isFrameCRCOK p.strCache = true) :
    (∀ input n packet,
        (Transition.drive step input n (call queue port bExt)).point = .write packet →
          packet.dataPacketFrame = packet.strCache ∧
            isFrameCRCOK packet.dataPacketFrame = true) ↔
      ∀ p ∈ queue, p.frameCommandType = dataRequest →
        p.getSize = Packet.sizeofDataPacketFrame := by
  constructor
  · intro hall p hp hcmd
    obtain ⟨input, n, hpoint⟩ := exists_write hp hcmd port bExt
    exact (Packet.dataPacketFrame_eq_iff p).mp (hall input n p hpoint).1
  · intro hsize input n packet hpoint
    obtain ⟨hmem, hcmd⟩ := drive_write hpoint
    have hexact := (Packet.dataPacketFrame_eq_iff packet).mpr (hsize packet hmem hcmd)
    refine ⟨hexact, ?_⟩
    rw [hexact]
    exact hqueue packet hmem

/-- A measurement of the size of the struct. -/
def fullFrame : Packet :=
  (Packet.mk [] []).buildPacket (0x72#8 :: 0x61#8 :: List.replicate 65 0x00#8) 0x01#8

theorem written_exactly_fullFrame :
    isFrameCRCOK fullFrame.strCache = true ∧
      ((∀ input n packet,
          (Transition.drive step input n (call [fullFrame] ⟨5, true⟩ false)).point =
            .write packet →
          packet.dataPacketFrame = packet.strCache ∧
            isFrameCRCOK packet.dataPacketFrame = true)) := by
  have hok : isFrameCRCOK fullFrame.strCache = true :=
    isFrameCRCOK_buildPacket _ _ (by simp)
  refine ⟨hok, (written_exactly_iff [fullFrame] ⟨5, true⟩ false ?_).mpr ?_⟩
  · intro p hp
    rw [List.mem_singleton.mp hp]
    exact hok
  · intro p hp _
    rw [List.mem_singleton.mp hp]
    exact length_buildPacket _ _ _

/-- A measurement of thirteen bytes goes out with 61 that are not its own, and is no
frame any more. -/
theorem sampleFrame_overread :
    isFrameCRCOK (DataPacketQueue.sampleFrame 1).strCache = true ∧
      (Transition.drive step (fun _ ↦ silence) 1
        (call [DataPacketQueue.sampleFrame 1] ⟨5, true⟩ false)).point =
          .write (DataPacketQueue.sampleFrame 1) ∧
      (DataPacketQueue.sampleFrame 1).getSize = 13 ∧
      (DataPacketQueue.sampleFrame 1).dataPacketFrame.length = 74 ∧
      isFrameCRCOK (DataPacketQueue.sampleFrame 1).dataPacketFrame = false := by
  decide +kernel

end Sender

end DeviceAgent
