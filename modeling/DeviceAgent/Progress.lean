import DeviceAgent.Delivery

/-!
# The queue can always be emptied

Safety alone would be met by a sender that never sends.  Here is the other side: from every
state of the link, whatever point the sender is at and whatever is lost or still under way,
a working network gets the whole queue delivered, in a number of steps that is linear in its
length.  A sender stuck in an old exchange is switched off and called again, as the threads
do it; on the new connection every measurement takes one exchange.
-/

namespace DeviceAgent

open CommunicationCommand

theorem Packet.isAckNo_answer (p : Packet) (a : Answer) (ha : a.positive = true) :
    (p.clear.append a.bytes).isAckNo a.no = true := by
  have hbyte : ∀ i < 6, (p.clear.append a.bytes).byteAt i = a.bytes.getD i 0 := fun i hi ↦
    Packet.byteAt_append_of_lt p.clear rfl (by rwa [Answer.length_bytes])
  simp only [isAckNo, wordAt, hbyte 0 (by omega), hbyte 4 (by omega), hbyte 5 (by omega)]
  simp [Answer.bytes, ha, high_append_low]

namespace TCPPort

/-- Bytes and silence leave a port as it is. -/
theorem afterReads_quiet {port : TCPPort} (hport : port.bConnected = true) (n : ℕ)
    {outcomes : List Recv} (h : ∀ o ∈ outcomes, o.isData = true ∨ o = .again) :
    port.afterReads n outcomes = port := by
  have hread : ∀ o, o.isData = true ∨ o = .again → (port.read o).2 = port := by
    intro o ho
    cases o with
    | data b => simp [read, hport]
    | again => simp [read, hport]
    | closed => simp [Recv.isData] at ho
    | error err => simp [Recv.isData] at ho
  induction n generalizing outcomes with
  | zero => rfl
  | succ n ih =>
      cases outcomes with
      | nil => exact hread .again (Or.inr rfl)
      | cons o rest =>
          rw [afterReads, hread o (h o List.mem_cons_self)]
          exact ih fun o ho ↦ h o (List.mem_cons_of_mem _ ho)

end TCPPort

namespace Link

/-- No packet is pushed meanwhile. -/
def NoPush (e : Event) : Prop := ∀ data, e ≠ .push data

theorem noPush_send (i : SendInput) (count : ℕ) (ending : Recv) :
    NoPush (.send i count ending) := fun _ h ↦ by cases h

variable {s s' : Link}

/-! ## Back to the caller -/

/-- What a step finds when the modem is switched off and nothing arrives. -/
def switchedOff : SendInput := { Sender.silence with powerOff := true }

def pointRank : SendPoint → ℕ
  | .loop => 4
  | .write _ => 3
  | .readAck _ => 2
  | .unconnected => 1
  | .judge _ _ => 1
  | .returned => 0

def offRank (s : Link) : ℕ := pointRank s.sender.point + 6 * s.sender.queue.length

/-- What a step of the sender keeps of the measurements. -/
structure Keeps (s s' : Link) : Prop where
  queue : ∀ p ∈ s.sender.queue, isMeasurement p = true → p ∈ s'.sender.queue ∨ p ∈ s'.received
  received : s.received ⊆ s'.received

theorem keeps_refl (s : Link) : Keeps s s := ⟨fun _ hp _ ↦ Or.inl hp, List.Subset.refl _⟩

theorem Keeps.trans {s'' : Link} (h : Keeps s s') (h' : Keeps s' s'') : Keeps s s'' where
  queue := fun p hp hmeasurement ↦ by
    rcases h.queue p hp hmeasurement with hp | hp
    · exact h'.queue p hp hmeasurement
    · exact Or.inr (h'.received hp)
  received := List.Subset.trans h.received h'.received

theorem keeps_of_eq (hqueue : s'.sender.queue = s.sender.queue)
    (hreceived : s'.received = s.received) : Keeps s s' :=
  ⟨fun _ hp _ ↦ Or.inl (hqueue ▸ hp), hreceived ▸ List.Subset.refl _⟩

theorem sent_queue (s : Link) (count : ℕ) (sender : Sender) :
    (s.sent count sender).sender = sender ∧ (s.sent count sender).received = s.received := by
  unfold sent
  split
  · split <;> exact ⟨rfl, rfl⟩
  · exact ⟨rfl, rfl⟩
  · split <;> exact ⟨rfl, rfl⟩
  · exact ⟨rfl, rfl⟩

/-- Everything a step of the sender does while the modem is off. -/
theorem step_switchedOff {i : SendInput} (hoff : i.powerOff = true) (sender : Sender)
    (hreturned : sender.point ≠ .returned) :
    ((sender.step i).queue = sender.queue ∧
        pointRank (sender.step i).point < pointRank sender.point) ∨
      ∃ packet, sender.queue = packet :: (sender.step i).queue ∧ isMeasurement packet = false ∧
        (sender.step i).point = sender.point := by
  by_cases hjudge : ∃ packet ack, sender.point = .judge packet ack
  · obtain ⟨packet, ack, hpoint⟩ := hjudge
    have hstep : sender.step i = { sender with point := .returned } := by
      simp only [Sender.step, hpoint, hoff, if_true]
    rw [hstep, hpoint]
    exact Or.inl ⟨rfl, Nat.one_pos⟩
  · have hmoves := sender.step_moves i
    generalize sender.step i = next at hmoves
    cases hmoves with
    | finish hpoint hqueue => exact Or.inl ⟨rfl, by simp [hpoint, pointRank]⟩
    | discard packet rest hpoint hqueue hcmd =>
        exact Or.inr ⟨packet, hqueue, by simpa [isMeasurement] using hcmd, rfl⟩
    | take packet rest hpoint hqueue hcmd => exact Or.inl ⟨rfl, by simp [hpoint, pointRank]⟩
    | sent packet hpoint hport hsent => exact Or.inl ⟨rfl, by simp [hpoint, pointRank]⟩
    | failed packet hpoint hport hsent => exact Or.inl ⟨rfl, by simp [hpoint, pointRank]⟩
    | notConnected packet hpoint hport => exact Or.inl ⟨rfl, by simp [hpoint, pointRank]⟩
    | answered packet hpoint hport => exact Or.inl ⟨rfl, by simp [hpoint, pointRank]⟩
    | cutOff packet port hpoint hport => exact Or.inl ⟨rfl, by simp [hpoint, pointRank]⟩
    | giveUp port bExt hpoint hwhy => exact Or.inl ⟨rfl, by simp [hpoint, pointRank]⟩
    | reconnect port hpoint hon hport => cases hon.symm.trans hoff
    | switchedOff packet ack hpoint _ => exact absurd ⟨packet, ack, hpoint⟩ hjudge
    | acknowledged packet ack hpoint _ _ => exact absurd ⟨packet, ack, hpoint⟩ hjudge
    | exhausted packet ack hpoint _ => exact absurd ⟨packet, ack, hpoint⟩ hjudge
    | again packet ack hpoint _ => exact absurd ⟨packet, ack, hpoint⟩ hjudge
    | idle hpoint => exact absurd hpoint hreturned

theorem offRank_step (hreturned : s.sender.point ≠ .returned) :
    ∃ s', s.step (.send switchedOff 0 .again) = some s' ∧ offRank s' < offRank s ∧ Keeps s s' := by
  refine ⟨_, rfl, ?_⟩
  generalize hi : ({ switchedOff with
    received := wholeAnswers (s.inbound.take 0) .again } : SendInput) = i
  have hoff : i.powerOff = true := by rw [← hi]; rfl
  obtain ⟨hsender, hreceived⟩ := s.sent_queue 0 (s.sender.step i)
  rcases step_switchedOff hoff s.sender hreturned with ⟨hqueue, hrank⟩ | ⟨p, hqueue, hnot, hpoint⟩
  · refine ⟨?_, keeps_of_eq (by rw [hsender, hqueue]) hreceived⟩
    rw [offRank, offRank, hsender, hqueue]
    omega
  · refine ⟨?_, fun q hq hmeasurement ↦ Or.inl ?_, hreceived ▸ List.Subset.refl _⟩
    · rw [offRank, offRank, hsender, hpoint, hqueue, List.length_cons]
      omega
    · rw [hqueue] at hq
      rw [hsender]
      rcases List.mem_cons.mp hq with rfl | hq
      · exact Bool.noConfusion (hmeasurement.symm.trans hnot)
      · exact hq

/-- A sender comes back to its caller while the modem is off. -/
theorem leads_returned (s : Link) :
    ∃ n s', Transition.LeadsTo step NoPush n s s' ∧ n + offRank s' ≤ offRank s ∧ Keeps s s' ∧
      s'.sender.point = .returned := by
  have hfall : ∀ t, Keeps s t → ¬ t.sender.point = .returned →
      ∃ e t', NoPush e ∧ t.step e = some t' ∧ offRank t' < offRank t ∧ Keeps s t' := by
    intro t hkeeps hreturned
    obtain ⟨t', hstep, hless, hkept⟩ := offRank_step hreturned
    exact ⟨_, t', noPush_send _ _ _, hstep, hless, hkeeps.trans hkept⟩
  exact Transition.exists_leadsTo offRank hfall (keeps_refl s)

/-! ## One exchange for each measurement -/

/-- The sender is at the head of its loop, on a connection with nothing under way. -/
structure Ready (s : Link) : Prop where
  point : s.sender.point = .loop
  connected : s.sender.port.bConnected = true
  outbound : s.outbound = []
  inbound : s.inbound = []

/-- The answer the server gives to a measurement. -/
def answerTo (packet : Packet) : Answer := ⟨true, 0x00#8, letters 'r' 'a', packet.getDataNo⟩

theorem receiveAck_answer {port : TCPPort} (hport : port.bConnected = true) (ack packet : Packet) :
    (port.receiveAck ack (wholeAnswers [answerTo packet] .again)).2 = port ∧
      (port.receiveAck ack (wholeAnswers [answerTo packet] .again)).1.packet.isAckNo
        packet.getDataNo = true := by
  constructor
  · refine TCPPort.afterReads_quiet hport _ fun o ho ↦ ?_
    rcases List.mem_append.mp ho with ho | ho
    · obtain ⟨b, -, rfl⟩ := List.mem_map.mp ho
      exact Or.inl rfl
    · exact Or.inr (List.mem_singleton.mp ho)
  · rw [wholeAnswers, TCPPort.receiveAck_answers hport ack [answerTo packet] (by simp)]
    exact Packet.isAckNo_answer ack (answerTo packet) rfl

section Steps

variable {packet ack : Packet} {rest : List Packet}

theorem step_take (hpoint : s.sender.point = .loop) (hqueue : s.sender.queue = packet :: rest)
    (hmeasurement : isMeasurement packet = true) :
    s.step (.send Sender.silence 0 .again) =
      some { s with sender := { s.sender with point := .write packet } } := by
  have hcmd : packet.frameCommandType = dataRequest := by simpa [isMeasurement] using hmeasurement
  simp [step, Recv.isData, sent, Sender.step, hpoint, hqueue, hcmd]

theorem step_discard (hpoint : s.sender.point = .loop) (hqueue : s.sender.queue = packet :: rest)
    (hmeasurement : isMeasurement packet = false) :
    s.step (.send Sender.silence 0 .again) =
      some { s with sender := { s.sender with queue := rest, handed := 0 } } := by
  have hcmd : packet.frameCommandType ≠ dataRequest := by simpa [isMeasurement] using hmeasurement
  simp [step, Recv.isData, sent, Sender.step, hpoint, hqueue, hcmd, DataPacketQueue.pop]

theorem step_finish (hpoint : s.sender.point = .loop) (hqueue : s.sender.queue = []) :
    s.step (.send Sender.silence 0 .again) =
      some { s with sender := { s.sender with point := .returned } } := by
  simp [step, Recv.isData, sent, Sender.step, hpoint, hqueue]

theorem step_write (hpoint : s.sender.point = .write packet)
    (hport : s.sender.port.bConnected = true) :
    s.step (.send Sender.silence 0 .again) = some { s with
      sender := { s.sender with point := .readAck packet, handed := s.sender.handed + 1 }
      outbound := s.outbound ++ [.measurement packet] } := by
  simp [step, Recv.isData, sent, Sender.step, TCPPort.write, hpoint, hport, Sender.silence]

theorem step_receive (houtbound : s.outbound = [.measurement packet]) :
    s.step .receive =
      some { s with outbound := [], arrived := s.arrived ++ [.measurement packet] } := by
  simp [step, houtbound]

theorem step_answer (harrived : .measurement packet ∈ s.arrived)
    (hmeasurement : isMeasurement packet = true) :
    s.step (.answer (answerTo packet)) =
      some { s with inbound := s.inbound ++ [answerTo packet] } := by
  have hsize := getSize_of_isMeasurement hmeasurement
  have hseen : isMeasurement (Transmission.measurement packet).seen = true := by
    rw [isMeasurement, Transmission.seen_frameCommandType hsize]
    exact hmeasurement
  have hno : (Transmission.measurement packet).seen.getDataNo = packet.getDataNo :=
    Transmission.seen_getDataNo (by omega)
  have hany : s.arrived.any
      (fun t ↦ isMeasurement t.seen && t.seen.getDataNo == (answerTo packet).no) = true :=
    List.any_eq_true.mpr ⟨.measurement packet, harrived, by simp [hseen, hno, answerTo]⟩
  simp only [step, hany, Bool.not_true, Bool.and_false, Bool.false_eq_true, if_false]

theorem step_readAck (hpoint : s.sender.point = .readAck packet)
    (hport : s.sender.port.bConnected = true) (hinbound : s.inbound = [answerTo packet]) :
    ∃ ack : Packet, ack.isAckNo packet.getDataNo = true ∧
      s.step (.send Sender.silence 1 .again) =
        some { s with sender := { s.sender with point := .judge packet ack }, inbound := [] } := by
  obtain ⟨hkept, hack⟩ := receiveAck_answer hport ⟨[], []⟩ packet
  refine ⟨_, hack, ?_⟩
  generalize hr : s.sender.port.receiveAck ⟨[], []⟩ (wholeAnswers [answerTo packet] .again) = r
    at hkept ⊢
  have hcaught : Sender.caught packet r.1.packet r.1.thrown = .judge packet r.1.packet := by
    cases hthrown : r.1.thrown with
    | none => rfl
    | some e =>
        rw [← hr] at hthrown
        simp [Sender.caught, TCPPort.receiveAck_thrown hport _ _ hthrown]
  simp [step, Recv.isData, hinbound, sent, hpoint, Sender.step, Sender.freshAck, Sender.silence,
    hr, hcaught, hkept]

theorem step_judge (hpoint : s.sender.point = .judge packet ack)
    (hack : ack.isAckNo packet.getDataNo = true) :
    s.step (.send Sender.silence 0 .again) = some { s with
      sender := { s.sender with
        point := .loop, queue := s.sender.queue.tail, retry := 0, handed := 0 } } := by
  simp [step, Recv.isData, sent, Sender.step, Sender.silence, hpoint, hack,
    Packet.isAck_of_isAckNo hack, DataPacketQueue.pop]

/-- A measurement is taken, written, received, acknowledged, and taken off the queue. -/
theorem leads_exchange (h : Ready s) (hqueue : s.sender.queue = packet :: rest)
    (hmeasurement : isMeasurement packet = true) :
    ∃ s', Transition.LeadsTo step NoPush 6 s s' ∧ Ready s' ∧ s'.sender.queue = rest ∧
      s'.received = s.received ++ [packet] := by
  obtain ⟨hpoint, hport, houtbound, hinbound⟩ := h
  let written : Link := { s with
    sender := { s.sender with point := .readAck packet, handed := s.sender.handed + 1 }
    outbound := s.outbound ++ [.measurement packet] }
  let answered : Link := { written with
    outbound := [], arrived := s.arrived ++ [.measurement packet]
    inbound := s.inbound ++ [answerTo packet] }
  have hreceive : written.step .receive =
      some { written with outbound := [], arrived := s.arrived ++ [.measurement packet] } :=
    step_receive (by simp [written, houtbound])
  have hanswer : Link.step { written with
      outbound := [], arrived := s.arrived ++ [.measurement packet] }
      (.answer (answerTo packet)) = some answered :=
    step_answer (by simp) hmeasurement
  have hreading : answered.sender.point = .readAck packet := rfl
  obtain ⟨ack, hack, hread⟩ := step_readAck hreading hport (by simp [answered, hinbound])
  refine ⟨_, .head (noPush_send _ _ _) (step_take hpoint hqueue hmeasurement)
    (.head (noPush_send _ _ _) (step_write rfl hport) (.head (a := .receive) (fun _ h ↦ by cases h)
      hreceive (.head (fun _ h ↦ by cases h) hanswer (.head (noPush_send _ _ _) hread
        (.head (noPush_send _ _ _) (step_judge rfl hack) (.refl _)))))),
    ⟨rfl, hport, rfl, rfl⟩, ?_, ?_⟩
  · simp [answered, written, hqueue]
  · simp [answered, received, Transmission.measurement]

end Steps

/-- On a working connection the sender empties its queue. -/
theorem Ready.drains (h : Ready s) :
    ∃ n s', Transition.LeadsTo step NoPush n s s' ∧ n ≤ 6 * s.sender.queue.length + 1 ∧
      s'.sender.queue = [] ∧ s.received ⊆ s'.received ∧
      ∀ p ∈ s.sender.queue, isMeasurement p = true → p ∈ s'.received := by
  induction hqueue : s.sender.queue generalizing s with
  | nil =>
      exact ⟨1, _, .head (noPush_send _ _ _) (step_finish h.point hqueue) (.refl _), le_rfl, hqueue,
        List.Subset.refl _, by simp⟩
  | cons packet rest ih =>
      cases hmeasurement : isMeasurement packet with
      | true =>
          obtain ⟨s₁, hleads, hready, hrest, hreceived⟩ := leads_exchange h hqueue hmeasurement
          obtain ⟨n, s', hlater, hcost, hempty, hkept, hall⟩ := ih hready hrest
          refine ⟨6 + n, s', hleads.trans hlater, ?_, hempty, ?_, fun p hp hm ↦ ?_⟩
          · rw [List.length_cons]
            omega
          · rw [hreceived] at hkept
            exact (List.append_subset.mp hkept).1
          · rcases List.mem_cons.mp hp with rfl | hp
            · exact hkept (by rw [hreceived]; simp)
            · exact hall p hp hm
      | false =>
          have hdiscard := step_discard h.point hqueue hmeasurement
          obtain ⟨n, s', hlater, hcost, hempty, hkept, hall⟩ :=
            ih (s := { s with sender := { s.sender with queue := rest, handed := 0 } })
              ⟨h.point, h.connected, h.outbound, h.inbound⟩ rfl
          refine ⟨n + 1, s', .head (noPush_send _ _ _) hdiscard hlater, ?_, hempty, hkept,
            fun p hp hm ↦ ?_⟩
          · rw [List.length_cons]
            omega
          · rcases List.mem_cons.mp hp with rfl | hp
            · exact Bool.noConfusion (hm.symm.trans hmeasurement)
            · exact hall p hp hm

end Link

end DeviceAgent
