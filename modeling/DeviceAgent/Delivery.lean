import DeviceAgent.SendCurrentData
import DeviceAgent.Foundations.StopAndWait

/-!
# Delivery of measurements

The sender machine together with the reader thread, the connection and the
server.  Transmissions arrive in order on a connection, and those of a
connection that was given up may still arrive later.  The server acknowledges
a number only after bytes arrived that have the command word of a measurement
and that number at their places; answers are read whole, but late, repeated or
never.  The system is a stop-and-wait
sender: a matching acknowledgement proves that the head of the queue has been
received, because no two measurements share a number.
-/

namespace DeviceAgent

open CommunicationCommand

structure Link where
  sender : Sender
  /-- The packets `Push` has appended, in order. -/
  appended : List Packet
  /-- Transmissions under way on the current connection. -/
  outbound : List Transmission
  /-- Transmissions under way on connections that were given up. -/
  stale : List Transmission
  /-- Answers of the server not yet read, on the current connection. -/
  inbound : List Answer
  /-- The transmissions that have reached the server. -/
  arrived : List Transmission
  deriving DecidableEq, Repr

namespace Link

/-- The packets whose transmissions the server has received. -/
def received (s : Link) : List Packet := s.arrived.map Transmission.packet

inductive Event
  | push (data : Packet)
  /-- One step of the sender; if it reads, it finds `count` whole answers and
  then `ending`. -/
  | send (i : SendInput) (count : ℕ) (ending : Recv)
  | receive
  | receiveStale (k : ℕ)
  | answer (a : Answer)
  | drop
  /-- `SendCurrentData` is called again, on a new connection. -/
  | call (port : TCPPort)
  /-- Another thread sets `bExtCommunicationError`. -/
  | setExt (b : Bool)

def start (port : TCPPort) (bExt : Bool) : Link :=
  ⟨Sender.call [] port bExt, [], [], [], [], []⟩

def isMeasurement (p : Packet) : Bool := p.frameCommandType == dataRequest

/-- The connection is given up and a new one takes its place. -/
def reconnected (s : Link) (sender : Sender) : Link :=
  { s with sender := sender, outbound := [], stale := s.stale ++ s.outbound, inbound := [] }

/-- What the outcomes of `recv` are when whole answers arrive. -/
def wholeAnswers (answers : List Answer) (ending : Recv) : List Recv :=
  (answers.flatMap Answer.bytes).map Recv.data ++ [ending]

/-- The effect on the line of a step that brings the sender to `sender`. -/
def sent (s : Link) (count : ℕ) (sender : Sender) : Link :=
  match s.sender.point with
  | .write packet =>
      if sender.point = .readAck packet then
        { s with sender := sender, outbound := s.outbound ++ [.measurement packet] }
      else { s with sender := sender }
  | .readAck _ => { s with sender := sender, inbound := s.inbound.drop count }
  | .unconnected =>
      if sender.point = .loop then s.reconnected sender else { s with sender := sender }
  | _ => { s with sender := sender }

def step (s : Link) : Event → Option Link
  | .push data =>
      let queue := DataPacketQueue.push s.sender.queue data
      some { s with
        sender := { s.sender with queue := queue }
        appended := s.appended ++ queue.drop s.sender.queue.length }
  | .send i count ending =>
      if ending.isData then none
      else
        let received := wholeAnswers (s.inbound.take count) ending
        some (s.sent count (s.sender.step { i with received := received }))
  | .receive =>
      match s.outbound with
      | [] => none
      | t :: rest => some { s with outbound := rest, arrived := s.arrived ++ [t] }
  | .receiveStale k =>
      match s.stale[k]? with
      | none => none
      | some t => some { s with stale := s.stale.eraseIdx k, arrived := s.arrived ++ [t] }
  | .answer a =>
      if a.positive &&
        !s.arrived.any (fun t ↦ isMeasurement t.seen && t.seen.getDataNo == a.no) then none
      else some { s with inbound := s.inbound ++ [a] }
  | .drop => some { s with outbound := [], stale := s.stale ++ s.outbound }
  | .call port =>
      if s.sender.point = .returned then
        some (s.reconnected (Sender.call s.sender.queue port s.sender.bExtCommunicationError))
      else none
  | .setExt b => some { s with sender := { s.sender with bExtCommunicationError := b } }

/-! ## The abstract sender behind the link -/

/-- Every transmission made so far. -/
def line (s : Link) : List Transmission := s.outbound ++ s.stale ++ s.arrived

/-- The line carries measurements, each with the bytes that `Write` is given for it. -/
def Wired (s : Link) : Prop :=
  ∀ t ∈ s.line, t = .measurement t.packet ∧ isMeasurement t.packet = true

/-- The link as a stop-and-wait sender that has finished with `done`. -/
def view (s : Link) (done : List Packet) : StopAndWait.State Packet :=
  ⟨done, s.sender.queue, (s.outbound ++ s.stale).map Transmission.packet, s.received⟩

/-- The server has received a packet with this number. -/
def Got (s : Link) (no : Word) : Prop := ∃ p ∈ s.received, p.getDataNo = no

theorem getSize_of_isMeasurement {p : Packet} (h : isMeasurement p = true) : 4 < p.getSize := by
  by_contra hshort
  rw [isMeasurement, Packet.frameCommandType, if_neg hshort] at h
  cases h

/-- What the server takes for a measurement with this number is one. -/
theorem Wired.got {s : Link} (h : Wired s) {no : Word}
    (hseen : s.arrived.any (fun t ↦ isMeasurement t.seen && t.seen.getDataNo == no) = true) :
    s.Got no := by
  obtain ⟨t, ht, hmatch⟩ := List.any_eq_true.mp hseen
  simp only [Bool.and_eq_true, beq_iff_eq] at hmatch
  obtain ⟨heq, hmeasurement⟩ := h t (List.mem_append_right _ ht)
  have hpos : 0 < t.packet.getSize := by
    have := getSize_of_isMeasurement hmeasurement
    omega
  refine ⟨t.packet, List.mem_map_of_mem ht, ?_⟩
  rw [← Transmission.seen_getDataNo hpos, ← heq]
  exact hmatch.2

/-! ## What a step can do -/

/-- What a positive answer says is true, whether it is under way or being judged. -/
structure Honest (s : Link) : Prop where
  serves : s.sender.Serves
  wired : s.Wired
  answers : ∀ a ∈ s.inbound, a.positive = true → s.Got a.no
  judged : ∀ packet ack, s.sender.point = .judge packet ack →
    ∀ no, ack.isAckNo no = true → s.Got no

/-- Every step but a push is one of these. -/
inductive Moves (s : Link) : Link → Prop
  | keep (sender : Sender) (outbound stale : List Transmission) (inbound : List Answer)
      (hqueue : sender.queue = s.sender.queue)
      (hless : outbound ++ stale ⊆ s.outbound ++ s.stale) : Moves s { s with
        sender := sender, outbound := outbound, stale := stale, inbound := inbound }
  | transmit (sender : Sender) (packet : Packet) (hqueue : sender.queue = s.sender.queue)
      (hhead : s.sender.queue.head? = some packet) (hmeasurement : isMeasurement packet = true) :
      Moves s { s with sender := sender, outbound := s.outbound ++ [.measurement packet] }
  | arrive (t : Transmission) (outbound stale : List Transmission) (ht : t ∈ s.outbound ++ s.stale)
      (hless : outbound ++ stale ⊆ s.outbound ++ s.stale) : Moves s { s with
        outbound := outbound, stale := stale, arrived := s.arrived ++ [t] }
  | pop (sender : Sender) (packet : Packet) (hqueue : s.sender.queue = packet :: sender.queue)
      (hwhy : s.Got packet.getDataNo ∨ isMeasurement packet = false) :
      Moves s { s with sender := sender }

variable {s s' : Link} {done : List Packet}

theorem Moves.appended (h : Moves s s') : s'.appended = s.appended := by
  cases h <;> rfl

theorem Moves.received (h : Moves s s') : s.received ⊆ s'.received := by
  cases h with
  | arrive t outbound stale ht hless => exact List.map_subset _ (List.subset_append_left _ _)
  | _ => exact List.Subset.refl _

/-- The line carries nothing new but the head of the queue. -/
theorem Moves.line (h : Moves s s') : ∀ t ∈ s'.line, t ∈ s.line ∨
    ∃ packet, s.sender.queue.head? = some packet ∧ isMeasurement packet = true ∧
      t = .measurement packet := by
  intro t ht
  cases h with
  | keep sender outbound stale inbound hqueue hless =>
      exact Or.inl ((List.mem_append.mp ht).elim (fun h ↦ List.mem_append_left _ (hless h))
        (List.mem_append_right _))
  | transmit sender packet hqueue hhead hmeasurement =>
      simp only [Link.line, List.mem_append, List.mem_singleton] at ht ⊢
      rcases ht with ((ht | rfl) | ht) | ht
      · exact Or.inl (Or.inl (Or.inl ht))
      · exact Or.inr ⟨packet, hhead, hmeasurement, rfl⟩
      · exact Or.inl (Or.inl (Or.inr ht))
      · exact Or.inl (Or.inr ht)
  | arrive u outbound stale hu hless =>
      simp only [Link.line, List.mem_append, List.mem_singleton] at ht hu hless ⊢
      rcases ht with ht | ht | rfl
      · exact Or.inl (Or.inl (List.mem_append.mp (hless (List.mem_append.mpr ht))))
      · exact Or.inl (Or.inr ht)
      · exact Or.inl (Or.inl hu)
  | pop sender packet hqueue hwhy => exact Or.inl ht

theorem Moves.got (h : Moves s s') {no : Word} (hgot : s.Got no) : s'.Got no := by
  obtain ⟨p, hp, hno⟩ := hgot
  exact ⟨p, h.received hp, hno⟩

/-- A step keeps what the answers say true if what it adds to them is. -/
theorem Honest.moves (h : Honest s) (hmoves : Moves s s') (hserves : s'.sender.Serves)
    (hanswers : ∀ a ∈ s'.inbound, a ∈ s.inbound ∨ (a.positive = true → s.Got a.no))
    (hjudged : ∀ packet ack, s'.sender.point = .judge packet ack →
      ∀ no, ack.isAckNo no = true → s.Got no) : Honest s' ∧ Moves s s' := by
  refine ⟨⟨hserves, fun t ht ↦ ?_, fun a ha hpos ↦ ?_, fun packet ack hpoint no hno ↦
    hmoves.got (hjudged packet ack hpoint no hno)⟩, hmoves⟩
  · rcases hmoves.line t ht with hold | ⟨packet, -, hmeasurement, rfl⟩
    · exact h.wired t hold
    · exact ⟨rfl, hmeasurement⟩
  · rcases hanswers a ha with hold | hgot
    · exact hmoves.got (h.answers a hold hpos)
    · exact hmoves.got (hgot hpos)

theorem Honest.withSender (h : Honest s) {sender : Sender} (hserves : sender.Serves)
    (hqueue : sender.queue = s.sender.queue) (count : ℕ)
    (hjudged : ∀ packet ack, sender.point = .judge packet ack →
      ∀ no, ack.isAckNo no = true → s.Got no) :
    Honest { s with sender := sender, inbound := s.inbound.drop count } ∧
      Moves s { s with sender := sender, inbound := s.inbound.drop count } :=
  h.moves (.keep sender _ _ _ hqueue (List.Subset.refl _)) hserves
    (fun _ ha ↦ Or.inl (List.mem_of_mem_drop ha)) hjudged

theorem Honest.popped (h : Honest s) {sender : Sender} {packet : Packet}
    (hqueue : s.sender.queue = packet :: sender.queue) (hpoint : sender.point = .loop)
    (hwhy : s.Got packet.getDataNo ∨ isMeasurement packet = false) :
    Honest { s with sender := sender } ∧ Moves s { s with sender := sender } :=
  h.moves (.pop sender packet hqueue hwhy) (Sender.serves_of_outside (by rw [hpoint]; rfl))
    (fun _ ↦ Or.inl) (by simp [hpoint])

theorem flight_given_up (s : Link) : [] ++ (s.stale ++ s.outbound) ⊆ s.outbound ++ s.stale := by
  rw [List.nil_append]
  exact List.perm_append_comm.subset

theorem mem_line_reconnected {sender : Sender} {t : Transmission}
    (ht : t ∈ (s.reconnected sender).line) : t ∈ s.line :=
  (List.mem_append.mp ht).elim (fun h ↦ List.mem_append_left _ (flight_given_up s h))
    (List.mem_append_right _)

/-- A sender outside the loop body asks for nothing on its new connection. -/
theorem Honest.reconnected (h : Honest s) {sender : Sender}
    (hpoint : Sender.packetOf sender.point = none) : Honest (s.reconnected sender) := by
  have hjudge : ∀ packet ack, sender.point ≠ .judge packet ack := by
    intro packet ack heq
    rw [heq] at hpoint
    cases hpoint
  exact ⟨Sender.serves_of_outside hpoint, fun t ht ↦ h.wired t (mem_line_reconnected ht),
    by simp [Link.reconnected], fun packet ack heq ↦ absurd heq (hjudge packet ack)⟩

theorem moves_reconnected {sender : Sender} (hqueue : sender.queue = s.sender.queue) :
    Moves s (s.reconnected sender) :=
  .keep sender [] _ [] hqueue (flight_given_up s)

/-- What is judged is the first answer read. -/
theorem Honest.answered (h : Honest s) {count : ℕ} {ending : Recv}
    (hending : ∀ b, ending ≠ .data b) {port : TCPPort} (hport : port.bConnected = true)
    (ack : Packet) {no : Word}
    (hno : (port.receiveAck ack (wholeAnswers (s.inbound.take count) ending)).1.packet.isAckNo no =
      true) : s.Got no := by
  rw [wholeAnswers, TCPPort.receiveAck_answers hport _ _ hending] at hno
  obtain ⟨a, rest, htake, hpos, rfl⟩ := Packet.first_of_isAckNo hno
  have hmem : a ∈ s.inbound.take count := by simp [htake]
  exact h.answers a (List.mem_of_mem_take hmem) hpos

theorem Honest.send (h : Honest s) (i : SendInput) (count : ℕ) (ending : Recv)
    (hending : ∀ b, ending ≠ .data b)
    (hi : i.received = wholeAnswers (s.inbound.take count) ending) :
    Honest (s.sent count (s.sender.step i)) ∧ Moves s (s.sent count (s.sender.step i)) := by
  have hserves : (s.sender.step i).Serves := h.serves.step
  have hmoves := s.sender.step_moves i
  generalize s.sender.step i = sender at hserves hmoves
  cases hmoves with
  | finish hpoint hqueue =>
      simp only [sent, hpoint]
      exact h.withSender hserves rfl 0 (by simp)
  | discard packet rest hpoint hqueue hcmd =>
      simp only [sent, hpoint]
      exact h.popped hqueue rfl (Or.inr (by simpa [isMeasurement] using hcmd))
  | take packet rest hpoint hqueue hcmd =>
      simp only [sent, hpoint]
      exact h.withSender hserves rfl 0 (by simp)
  | sent packet hpoint hport hsent =>
      obtain ⟨hhead, hcmd⟩ := h.serves packet (by simp [hpoint, Sender.packetOf])
      have hmeasurement : isMeasurement packet = true := by simpa [isMeasurement] using hcmd
      simp only [sent, hpoint, if_true]
      exact h.moves (.transmit _ packet rfl hhead hmeasurement) hserves (fun _ ↦ Or.inl) (by simp)
  | failed packet hpoint hport hsent =>
      simp only [sent, hpoint, reduceCtorEq, if_false]
      refine h.withSender hserves rfl 0 fun packet' ack hjudge no hno ↦ ?_
      obtain ⟨-, rfl⟩ := SendPoint.judge.inj hjudge
      have hack := Packet.isAck_of_isAckNo hno
      rw [Packet.isAck_of_empty rfl] at hack
      cases hack
  | notConnected packet hpoint hport =>
      simp only [sent, hpoint, reduceCtorEq, if_false]
      exact h.withSender hserves rfl 0 (by simp)
  | answered packet hpoint hport =>
      simp only [sent, hpoint]
      refine h.withSender hserves rfl count fun packet' ack hjudge no hno ↦ ?_
      obtain ⟨-, rfl⟩ := SendPoint.judge.inj hjudge
      rw [hi] at hno
      exact h.answered hending hport _ hno
  | cutOff packet port hpoint hport =>
      simp only [sent, hpoint]
      exact h.withSender hserves rfl count (by simp)
  | giveUp port bExt hpoint hwhy =>
      simp only [sent, hpoint, reduceCtorEq, if_false]
      exact h.withSender hserves rfl 0 (by simp)
  | reconnect port hpoint hon hport =>
      simp only [sent, hpoint, if_true]
      exact ⟨h.reconnected rfl, moves_reconnected rfl⟩
  | switchedOff packet ack hpoint hoff =>
      simp only [sent, hpoint]
      exact h.withSender hserves rfl 0 (by simp)
  | acknowledged packet ack hpoint hon hack =>
      obtain ⟨hhead, -⟩ := h.serves packet (by simp [hpoint, Sender.packetOf])
      obtain ⟨rest, hqueue⟩ := List.head?_eq_some_iff.mp hhead
      simp only [sent, hpoint]
      exact h.popped (by simp [hqueue]) rfl (Or.inl (h.judged packet ack hpoint _ hack))
  | exhausted packet ack hpoint hlast =>
      simp only [sent, hpoint]
      exact h.withSender hserves rfl 0 (by simp)
  | again packet ack hpoint hmore =>
      simp only [sent, hpoint]
      exact h.withSender hserves rfl 0 (by simp)
  | idle hpoint =>
      simp only [sent, hpoint]
      exact h.withSender hserves rfl 0 h.judged

theorem Honest.arrived (h : Honest s) {t : Transmission} {outbound stale : List Transmission}
    (ht : t ∈ s.outbound ++ s.stale) (hless : outbound ++ stale ⊆ s.outbound ++ s.stale) :
    Honest { s with outbound := outbound, stale := stale, arrived := s.arrived ++ [t] } ∧
      Moves s { s with outbound := outbound, stale := stale, arrived := s.arrived ++ [t] } :=
  h.moves (.arrive t outbound stale ht hless) h.serves (fun _ ↦ Or.inl) h.judged

theorem Honest.step (h : Honest s) {e : Event} (hstep : s.step e = some s')
    (hpush : ∀ data, e ≠ .push data) : Honest s' ∧ Moves s s' := by
  cases e with
  | push data => exact absurd rfl (hpush data)
  | send i count ending =>
      simp only [Link.step] at hstep
      split at hstep
      · cases hstep
      · rename_i hending
        obtain rfl := Option.some.inj hstep
        exact h.send _ count ending (Recv.ne_data hending) rfl
  | receive =>
      simp only [Link.step] at hstep
      split at hstep
      · cases hstep
      · rename_i p rest houtbound
        obtain rfl := Option.some.inj hstep
        exact h.arrived (by simp [houtbound]) (by simp [houtbound])
  | receiveStale k =>
      simp only [Link.step] at hstep
      split at hstep
      · cases hstep
      · rename_i p hstale
        obtain rfl := Option.some.inj hstep
        refine h.arrived (List.mem_append_right _ (List.mem_of_getElem? hstale)) ?_
        exact List.append_subset.mpr ⟨List.subset_append_left _ _,
          fun q hq ↦ List.mem_append_right _ ((List.eraseIdx_sublist _ k).subset hq)⟩
  | answer a =>
      simp only [Link.step] at hstep
      split at hstep
      · cases hstep
      · rename_i hgot
        obtain rfl := Option.some.inj hstep
        refine h.moves (.keep _ _ _ _ rfl (List.Subset.refl _)) h.serves (fun b hb ↦ ?_) h.judged
        refine (List.mem_append.mp hb).imp_right fun hb hpos ↦ ?_
        obtain rfl := List.mem_singleton.mp hb
        exact h.wired.got (by simpa [hpos] using hgot)
  | drop =>
      obtain rfl := Option.some.inj hstep
      exact h.moves (.keep _ [] _ _ rfl (flight_given_up s)) h.serves
        (fun _ ↦ Or.inl) h.judged
  | call port =>
      simp only [Link.step] at hstep
      split at hstep
      · obtain rfl := Option.some.inj hstep
        exact ⟨h.reconnected rfl, moves_reconnected rfl⟩
      · cases hstep
  | setExt b =>
      obtain rfl := Option.some.inj hstep
      exact h.moves (.keep _ _ _ _ rfl (List.Subset.refl _)) h.serves (fun _ ↦ Or.inl) h.judged

/-! ## Every step is one of the abstract sender -/

structure Core (s : Link) (done : List Packet) : Prop extends Honest s where
  logged : s.appended = done ++ s.sender.queue
  abstract : StopAndWait.Inv isMeasurement (s.view done)

theorem core_start (port : TCPPort) (bExt : Bool) : Core (start port bExt) [] where
  serves := by simp [Sender.Serves, start, Sender.call, Sender.packetOf]
  wired := by simp [Wired, line, start]
  logged := rfl
  abstract := StopAndWait.inv_empty
  answers := by simp [start]
  judged := by simp [start, Sender.call]

/-- A matching acknowledgement means that the head has been received: the server
has a packet with its number, and numbers are not shared. -/
theorem Core.head_received (h : Core s done) (hdistinct : (s.appended.map Packet.getDataNo).Nodup)
    {packet : Packet} {rest : List Packet} (hqueue : s.sender.queue = packet :: rest)
    (hgot : s.Got packet.getDataNo) : packet ∈ s.received := by
  obtain ⟨p, hp, hno⟩ := hgot
  have hmem : ∀ q, q ∈ done ∨ s.sender.queue.head? = some q → q ∈ s.appended := by
    intro q hq
    rw [h.logged, List.mem_append]
    exact hq.imp_right List.mem_of_mem_head?
  have hsame : p = packet :=
    List.inj_on_of_nodup_map hdistinct (hmem p (h.abstract.received_cases hp))
      (hmem packet (Or.inr (by simp [hqueue]))) hno
  exact hsame ▸ hp

theorem Core.moves (h : Core s done) (hdistinct : (s.appended.map Packet.getDataNo).Nodup)
    (hhonest : Honest s') (hmoves : Moves s s') : ∃ done', Core s' done' := by
  cases hmoves with
  | keep sender outbound stale inbound hqueue hless =>
      refine ⟨done, hhonest, h.logged.trans (by rw [hqueue]), ?_⟩
      rw [view, hqueue]
      exact h.abstract.step (.rearrange _ (List.map_subset _ hless))
  | transmit sender packet hqueue hhead hmeasurement =>
      refine ⟨done, hhonest, h.logged.trans (by rw [hqueue]), ?_⟩
      rw [view, hqueue]
      exact h.abstract.step (.transmit packet _ hhead hmeasurement
        (by simp [view, Transmission.measurement]))
  | arrive t outbound stale ht hless =>
      refine ⟨done, hhonest, h.logged, ?_⟩
      have hreceived : (s.arrived ++ [t]).map Transmission.packet = s.received ++ [t.packet] := by
        simp [received]
      rw [view, received, hreceived]
      exact h.abstract.step (.receive t.packet _ (List.mem_map_of_mem ht) (List.map_subset _ hless))
  | pop sender packet hqueue hwhy =>
      refine ⟨done ++ [packet], hhonest, by simp [h.logged, hqueue], ?_⟩
      rcases hwhy with hgot | hnot
      · exact h.abstract.step
          (.acknowledge packet sender.queue hqueue (h.head_received hdistinct hqueue hgot))
      · exact h.abstract.step (.discard packet sender.queue hqueue hnot)

theorem Core.push (h : Core s done) (data : Packet) (hstep : s.step (.push data) = some s')
    (hdistinct : (s'.appended.map Packet.getDataNo).Nodup) : Core s' done := by
  obtain rfl := Option.some.inj hstep
  rcases DataPacketQueue.push_cases s.sender.queue data with heq | ⟨heq, -, -⟩
  · simp only [heq, List.drop_length, List.append_nil]
    exact h
  · simp only [heq, List.drop_left] at hdistinct ⊢
    have hfresh : data ∉ done ++ s.sender.queue := by
      intro hmem
      rw [h.logged, List.map_append, List.nodup_append] at hdistinct
      exact hdistinct.2.2 _ (List.mem_map_of_mem hmem) _ (by simp) rfl
    refine ⟨⟨fun packet hp ↦ ?_, h.wired, h.answers, h.judged⟩, ?_, ?_⟩
    · obtain ⟨hhead, hcmd⟩ := h.serves packet hp
      exact ⟨by simp [List.head?_append, hhead], hcmd⟩
    · simp [h.logged]
    · exact h.abstract.step (.append data hfresh)

theorem sent_appended (s : Link) (count : ℕ) (sender : Sender) :
    (s.sent count sender).appended = s.appended := by
  unfold sent
  split
  · split <;> rfl
  · rfl
  · split <;> rfl
  · rfl

theorem appended_grows {e : Event} (hstep : s.step e = some s') : s.appended <+: s'.appended := by
  cases e with
  | push data =>
      obtain rfl := Option.some.inj hstep
      exact List.prefix_append _ _
  | send i count ending =>
      simp only [step] at hstep
      split at hstep
      · cases hstep
      · obtain rfl := Option.some.inj hstep
        rw [sent_appended]
  | receive =>
      simp only [step] at hstep
      split at hstep
      · cases hstep
      · obtain rfl := Option.some.inj hstep
        exact List.prefix_rfl
  | receiveStale k =>
      simp only [step] at hstep
      split at hstep
      · cases hstep
      · obtain rfl := Option.some.inj hstep
        exact List.prefix_rfl
  | answer a =>
      simp only [step] at hstep
      split at hstep
      · cases hstep
      · obtain rfl := Option.some.inj hstep
        exact List.prefix_rfl
  | drop =>
      obtain rfl := Option.some.inj hstep
      exact List.prefix_rfl
  | call port =>
      simp only [step] at hstep
      split at hstep
      · obtain rfl := Option.some.inj hstep
        exact List.prefix_rfl
      · cases hstep
  | setExt b =>
      obtain rfl := Option.some.inj hstep
      exact List.prefix_rfl

theorem Core.step (h : Core s done) {e : Event} (hstep : s.step e = some s')
    (hdistinct : (s'.appended.map Packet.getDataNo).Nodup) : ∃ done', Core s' done' := by
  have hbefore : (s.appended.map Packet.getDataNo).Nodup :=
    hdistinct.sublist ((appended_grows hstep).sublist.map _)
  by_cases hpush : ∃ data, e = .push data
  · obtain ⟨data, rfl⟩ := hpush
    exact ⟨done, h.push data hstep hdistinct⟩
  · obtain ⟨hhonest, hmoves⟩ := h.toHonest.step hstep fun data heq ↦ hpush ⟨data, heq⟩
    exact h.moves hbefore hhonest hmoves

/-- In every reachable state a packet that was appended is still queued, or has
been received, or is no measurement; and measurements are first received in the
order in which they were appended. -/
theorem measurements_delivered (port : TCPPort) (bExt : Bool) (s : Link)
    (hreach : Transition.Reaches step (fun _ _ ↦ True) (start port bExt) s)
    (hdistinct : (s.appended.map Packet.getDataNo).Nodup) :
    (∀ p ∈ s.appended, p ∈ s.sender.queue ∨ p ∈ s.received ∨
      p.frameCommandType ≠ dataRequest) ∧
    StopAndWait.firsts s.received <+:
      s.appended.filter fun p ↦ p.frameCommandType == dataRequest := by
  have hinv : (s.appended.map Packet.getDataNo).Nodup → ∃ done, Core s done := by
    refine hreach.invariant (fun s ↦ (s.appended.map Packet.getDataNo).Nodup →
      ∃ done, Core s done) ?_ fun _ ↦ ⟨[], core_start port bExt⟩
    intro s e s' hs _ hstep hafter
    obtain ⟨done, hcore⟩ := hs (hafter.sublist ((appended_grows hstep).sublist.map _))
    exact hcore.step hstep hafter
  obtain ⟨done, hcore⟩ := hinv hdistinct
  constructor
  · intro p hp
    rw [hcore.logged] at hp
    exact (hcore.abstract.kept hp).imp_right fun h ↦ h.imp_right fun hnot ↦ by
      simpa [isMeasurement] using hnot
  · rw [hcore.logged]
    exact hcore.abstract.firsts_prefix

/-- Two measurements; the first is received and acknowledged, the second is
waiting. -/
def oneAcknowledged : List Event :=
  [.push (DataPacketQueue.sampleFrame 1), .push (DataPacketQueue.sampleFrame 2),
    .send Sender.silence 0 .again, .send Sender.silence 0 .again, .receive,
    .answer ⟨true, 0x01#8, letters 'r' 'a', 1⟩, .send Sender.silence 1 .again,
    .send Sender.silence 0 .again]

theorem measurements_delivered_one :
    ∃ s, Transition.run step oneAcknowledged (start ⟨5, true⟩ false) = some s ∧
      s.received = [DataPacketQueue.sampleFrame 1] ∧
      s.sender.queue = [DataPacketQueue.sampleFrame 2] ∧
      (s.appended.map Packet.getDataNo).Nodup ∧
      StopAndWait.firsts s.received <+:
        s.appended.filter fun p ↦ p.frameCommandType == dataRequest := by
  obtain ⟨s, hrun, hreceived, hqueue, hdistinct⟩ := Transition.exists_run step oneAcknowledged
    (start ⟨5, true⟩ false)
    (fun s ↦ s.received = [DataPacketQueue.sampleFrame 1] ∧
      s.sender.queue = [DataPacketQueue.sampleFrame 2] ∧
      (s.appended.map Packet.getDataNo).Nodup)
    (by decide +kernel)
  have hreach := Transition.Reaches.of_run (Transition.meets_true oneAcknowledged _) hrun
  exact ⟨s, hrun, hreceived, hqueue, hdistinct,
    (measurements_delivered ⟨5, true⟩ false s hreach hdistinct).2⟩

end Link

end DeviceAgent
