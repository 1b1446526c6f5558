import DeviceAgent.HistoryTransfer
import DeviceAgent.Foundations.Transition

/-!
# How long a batch is sent

`SendQueueData` sends its whole queue again and again until acknowledgements have
emptied it.  It counts nothing.  It ends only when a write or a read fails, the peer hangs
up, or the numbers acknowledged so far, each taken off the front of the queue, have covered
all of it; a server that stays connected without that is sent the batch for ever.
-/

namespace DeviceAgent

/-- The state of a call that has not ended. -/
def Outcome.still {σ : Type} : Outcome σ → Option σ
  | .running s => some s
  | _ => none

theorem Outcome.still_eq_none_iff {σ : Type} {o : Outcome σ} :
    o.still = none ↔ ∀ s, o ≠ .running s := by
  cases o <;> simp [still]

/-! ## What a round brings -/

/-- The bytes of the reads up to the first that brings none, and what that one brings.
Behind the outcomes listed the line is silent. -/
def heard : List Recv → List Byte × Recv
  | [] => ([], .again)
  | .data b :: rest => (b :: (heard rest).1, (heard rest).2)
  | outcome :: _ => ([], outcome)

theorem heard_spec (outcomes : List Recv) :
    ∃ rest, outcomes = (heard outcomes).1.map Recv.data ++ rest ∧
      rest.headD .again = (heard outcomes).2 ∧ ∀ b tail, rest ≠ .data b :: tail := by
  induction outcomes with
  | nil => exact ⟨[], rfl, rfl, by simp⟩
  | cons outcome outcomes ih =>
      cases outcome with
      | data b =>
          obtain ⟨rest, hsplit, hend, hrest⟩ := ih
          exact ⟨rest, congrArg _ hsplit, hend, hrest⟩
      | again => exact ⟨.again :: outcomes, rfl, rfl, by simp⟩
      | closed => exact ⟨.closed :: outcomes, rfl, rfl, by simp⟩
      | error err => exact ⟨.error err :: outcomes, rfl, rfl, by simp⟩

namespace ServerRound

/-- The `ack` of the round: what was received from the symbol on, in the storage of a new
packet. -/
def answer (r : ServerRound) : Packet :=
  (Packet.mk [] r.residue).setPacket ((heard r.received).1.dropWhile fun b ↦ !Packet.isSymbol b)

/-- The number of an acknowledgement. -/
def acknowledged (r : ServerRound) : Option Word :=
  if r.answer.isValidAck && r.answer.isAck then some r.answer.getAckNo else none

/-- One of the writes for these packets fails, the read behind them fails, or the peer
closes the connection. -/
def Breaks (port : TCPPort) (queue : List Packet) (r : ServerRound) : Prop :=
  (∃ err, SendResult.error err ∈ r.written.take queue.length) ∨
    (∃ err, (heard r.received).2 = .error err) ∨
    ((heard r.received).2 = .closed ∧ 0 < port.socketID)

end ServerRound

/-- What is left of the queue when the acknowledgements of the first rounds, one after the
other, have taken off its front what they cover. -/
def uncovered (queue : List Packet) (rounds : ℕ → ServerRound) : ℕ → List Packet
  | 0 => queue
  | n + 1 =>
      match (rounds n).acknowledged with
      | some no => popCovered no (uncovered queue rounds n)
      | none => uncovered queue rounds n

namespace TCPPort

theorem receiveAck_heard {port : TCPPort} (hport : port.bConnected = true) (ack : Packet)
    (outcomes : List Recv) :
    (port.receiveAck ack outcomes).1.packet =
        ack.setPacket ((heard outcomes).1.dropWhile fun b ↦ !Packet.isSymbol b) ∧
      (port.receiveAck ack outcomes).1.thrown =
        Packet.endOf (port.read (heard outcomes).2).1 ∧
      (port.receiveAck ack outcomes).2 = (port.read (heard outcomes).2).2 := by
  obtain ⟨rest, hsplit, hend, hrest⟩ := heard_spec outcomes
  obtain ⟨r, tail, hreads, hr, -⟩ := reads_end hport hrest
  have hfirst : r = (port.read (heard outcomes).2).1 := by
    rw [← hend]
    cases rest <;> exact (List.cons.inj hreads).1.symm
  have hresults : port.reads outcomes = (heard outcomes).1.map .byte ++ r :: tail := by
    rw [hsplit, reads_data hport, hreads, ← hsplit]
  have hused : ((heard outcomes).1.map ReadResult.byte ++ r :: tail).length - tail.length =
      (heard outcomes).1.length + 1 := by
    simp only [List.length_append, List.length_map, List.length_cons]
    omega
  have hafter : port.afterReads ((heard outcomes).1.length + 1) outcomes =
      (port.read (heard outcomes).2).2 := by
    rw [← hend, ← afterReads_one, ← afterReads_data hport (heard outcomes).1 1 rest]
    exact congrArg _ hsplit
  rw [← hfirst]
  simp only [receiveAck, hresults, Packet.receiveAckFrom_bytes ack _ hr, hused, hafter]
  exact ⟨rfl, trivial, trivial⟩

theorem read_unconnected {port : TCPPort} (hport : port.bConnected = false) (outcome : Recv) :
    (port.read outcome).2 = port := by
  simp [read, hport]

theorem endOf_read {port : TCPPort} (hport : port.bConnected = true) (outcome : Recv) :
    Packet.endOf (port.read outcome).1 = none ↔ ∀ err, outcome ≠ .error err := by
  cases outcome <;> simp [read, hport, Packet.endOf]

theorem read_port {port : TCPPort} (hport : port.bConnected = true) (outcome : Recv) :
    (port.read outcome).2 = if outcome = .closed then port.close else port := by
  cases outcome <;> simp [read, hport]

end TCPPort

namespace Flush

/-- The state behind a round that neither throws nor empties the queue. -/
def round (round : ServerRound) (f : Flush) : Option Flush := (sendQueueData [round] f).1.still

/-! ## One round -/

theorem sendAll_eq_none_iff {port : TCPPort} (hport : port.bConnected = true)
    (queue : List Packet) (written : List SendResult) :
    (sendAll port queue written).2 = none ↔
      ∀ err, SendResult.error err ∉ written.take queue.length := by
  induction queue generalizing written with
  | nil => simp [sendAll]
  | cons p queue ih =>
      cases written with
      | nil =>
          have hrest := ih []
          simp only [List.take_nil, List.not_mem_nil, not_false_eq_true, implies_true,
            iff_true] at hrest ⊢
          simp [sendAll, TCPPort.write, hport, hrest]
      | cons w written =>
          cases w with
          | sent => simp [sendAll, TCPPort.write, hport, ih written]
          | error err =>
              refine iff_of_false (by simp [sendAll, TCPPort.write, hport]) fun h ↦ ?_
              exact h err (by simp)

theorem sendAll_unconnected {port : TCPPort} (hport : port.bConnected = false)
    {queue : List Packet} (hne : queue ≠ []) (written : List SendResult) :
    (sendAll port queue written).2 ≠ none := by
  obtain ⟨p, rest, rfl⟩ := List.exists_cons_of_ne_nil hne
  simp [sendAll, TCPPort.write, hport]

theorem acknowledge_queue (f : Flush) (r : ServerRound) :
    (f.acknowledge r.answer).queue =
      match r.acknowledged with
      | some no => popCovered no f.queue
      | none => f.queue := by
  unfold acknowledge ServerRound.acknowledged
  split <;> rfl

theorem acknowledge_port (f : Flush) (ack : Packet) : (f.acknowledge ack).port = f.port := by
  rcases f.acknowledge_cases ack with heq | ⟨-, heq⟩ <;> rw [heq]

theorem round_eq_some_iff {r : ServerRound} {f g : Flush} (hport : f.port.bConnected = true) :
    f.round r = some g ↔
      (∀ err, SendResult.error err ∉ r.written.take f.queue.length) ∧
        (∀ err, (heard r.received).2 ≠ .error err) ∧ g.queue ≠ [] ∧
        g = acknowledge ⟨f.queue, (f.port.read (heard r.received).2).2, f.sent ++ f.queue, f.acks⟩
          r.answer := by
  obtain ⟨hpacket, hthrown, hleft⟩ :=
    TCPPort.receiveAck_heard hport ⟨[], r.residue⟩ r.received
  have hquiet : (f.port.receiveAck ⟨[], r.residue⟩ r.received).1.thrown = none ↔
      ∀ err, (heard r.received).2 ≠ .error err := by
    rw [hthrown, TCPPort.endOf_read hport]
  rw [round, sendQueueData, ← hquiet, ← sendAll_eq_none_iff hport]
  cases hwritten : (sendAll f.port f.queue r.written).2 with
  | some e => simp [Outcome.still]
  | none =>
      simp only [sendAll_eq_of_none _ _ _ hwritten, hpacket, hleft]
      cases hread : (f.port.receiveAck ⟨[], r.residue⟩ r.received).1.thrown with
      | some e => simp [Outcome.still]
      | none =>
          simp only [true_and]
          rw [← ServerRound.answer]
          split_ifs with hempty
          · simp only [Outcome.still, reduceCtorEq, false_iff, not_and]
            rintro hne rfl
            exact hne hempty
          · simp only [sendQueueData, Outcome.still, Option.some.injEq]
            constructor
            · rintro rfl
              exact ⟨hempty, rfl⟩
            · rintro ⟨-, rfl⟩
              rfl

theorem round_unconnected {r : ServerRound} {f : Flush} (hport : f.port.bConnected = false)
    (hne : f.queue ≠ []) : f.round r = none := by
  rw [round, sendQueueData]
  cases hwritten : (sendAll f.port f.queue r.written).2 with
  | some e => rfl
  | none => exact absurd hwritten (sendAll_unconnected hport hne r.written)

end Flush

theorem sendQueueData_concat (rounds : List ServerRound) (r : ServerRound) (f : Flush) :
    (sendQueueData (rounds ++ [r]) f).1.still =
      (sendQueueData rounds f).1.still.bind (Flush.round r) := by
  induction rounds generalizing f with
  | nil => rfl
  | cons first rounds ih =>
      simp only [List.cons_append, sendQueueData]
      split
      · rfl
      · split
        · rfl
        · split
          · rfl
          · exact ih _

theorem after_round (rounds : ℕ → ServerRound) (n : ℕ) (f : Flush) :
    Transition.after (fun k ↦ Flush.round (rounds k)) n f =
      (sendQueueData ((List.range n).map rounds) f).1.still := by
  induction n with
  | zero => rfl
  | succ n ih =>
      rw [Transition.after, ih, List.range_succ, List.map_append, List.map_singleton,
        sendQueueData_concat]

/-! ## Following a call -/

namespace Flush

section Follow

variable (queue : List Packet) (port : TCPPort) (rounds : ℕ → ServerRound)

/-- The port that a round finds. -/
def portBefore : ℕ → TCPPort
  | 0 => port
  | n + 1 => (port.read (heard (rounds n).received).2).2

/-- The state that a round finds. -/
def Tracks (n : ℕ) (f : Flush) : Prop :=
  f.queue = uncovered queue rounds n ∧ f.queue ≠ [] ∧ f.port = portBefore port rounds n

/-- The round is the last one: it finds the port closed, a write or the read fails, or
nothing of the queue is left. -/
def Last (n : ℕ) : Prop :=
  (portBefore port rounds n).bConnected = false ∨
    (∃ err, SendResult.error err ∈
      (rounds n).written.take (uncovered queue rounds n).length) ∨
    (∃ err, (heard (rounds n).received).2 = .error err) ∨ uncovered queue rounds (n + 1) = []

variable {queue port rounds}

/-- A port that a round finds connected is the one the call was given. -/
theorem portBefore_eq {n : ℕ} (h : (portBefore port rounds n).bConnected = true) :
    portBefore port rounds n = port := by
  cases n with
  | zero => rfl
  | succ n =>
      rw [portBefore] at h ⊢
      cases hport : port.bConnected with
      | false =>
          rw [TCPPort.read_unconnected hport]
      | true =>
          rw [TCPPort.read_port hport] at h ⊢
          split_ifs at h ⊢
          · have hsocket : ¬ 0 < port.socketID := by
              intro hpos
              rw [(TCPPort.close_bConnected port).mpr (Or.inr hpos)] at h
              cases h
            exact if_neg hsocket
          · rfl

theorem Tracks.round {n : ℕ} {f : Flush} (h : Tracks queue port rounds n f) :
    (Last queue port rounds n ∧ f.round (rounds n) = none) ∨
      (¬ Last queue port rounds n ∧
        ∃ g, f.round (rounds n) = some g ∧ Tracks queue port rounds (n + 1) g) := by
  obtain ⟨hqueue, hne, hport⟩ := h
  cases hconn : (portBefore port rounds n).bConnected with
  | false =>
      left
      exact ⟨Or.inl hconn, round_unconnected (hport ▸ hconn) hne⟩
  | true =>
      have hopen : f.port.bConnected = true := hport ▸ hconn
      have hsame : f.port = port := hport.trans (portBefore_eq hconn)
      have hnext : (acknowledge ⟨f.queue, (f.port.read (heard (rounds n).received).2).2,
          f.sent ++ f.queue, f.acks⟩ (rounds n).answer).queue =
            uncovered queue rounds (n + 1) := by
        rw [acknowledge_queue, uncovered, hqueue]
      by_cases hlast : Last queue port rounds n
      · refine Or.inl ⟨hlast, ?_⟩
        rw [Option.eq_none_iff_forall_ne_some]
        intro g hg
        obtain ⟨hwritten, hread, hleft, rfl⟩ := (round_eq_some_iff hopen).mp hg
        rw [hnext] at hleft
        rcases hlast with hclosed | ⟨err, herr⟩ | ⟨err, herr⟩ | hempty
        · rw [hconn] at hclosed
          cases hclosed
        · exact hwritten err (hqueue ▸ herr)
        · exact hread err herr
        · exact hleft hempty
      · refine Or.inr ⟨hlast, _, (round_eq_some_iff hopen).mpr ⟨?_, ?_, ?_, rfl⟩, hnext, ?_, ?_⟩
        · exact fun err herr ↦ hlast (Or.inr (Or.inl ⟨err, hqueue ▸ herr⟩))
        · exact fun err herr ↦ hlast (Or.inr (Or.inr (Or.inl ⟨err, herr⟩)))
        · rw [hnext]
          exact fun hempty ↦ hlast (Or.inr (Or.inr (Or.inr hempty)))
        · rw [hnext]
          exact fun hempty ↦ hlast (Or.inr (Or.inr (Or.inr hempty)))
        · rw [acknowledge_port, hsame]
          rfl

theorem exists_last_iff :
    (∃ n, Last queue port rounds n) ↔
      port.bConnected = false ∨ ∃ k, (rounds k).Breaks port (uncovered queue rounds k) ∨
        uncovered queue rounds (k + 1) = [] := by
  constructor
  · rintro ⟨n, hclosed | hwrite | hread | hempty⟩
    · cases n with
      | zero => exact Or.inl hclosed
      | succ n =>
          cases hport : port.bConnected with
          | false => exact Or.inl rfl
          | true =>
              refine Or.inr ⟨n, Or.inl (Or.inr (Or.inr ?_))⟩
              rw [portBefore, TCPPort.read_port hport] at hclosed
              split_ifs at hclosed with hend
              · rw [TCPPort.close_bConnected, hport] at hclosed
                exact ⟨hend, hclosed.resolve_left (by simp)⟩
              · rw [hport] at hclosed
                cases hclosed
    · exact Or.inr ⟨n, Or.inl (Or.inl hwrite)⟩
    · exact Or.inr ⟨n, Or.inl (Or.inr (Or.inl hread))⟩
    · exact Or.inr ⟨n, Or.inr hempty⟩
  · rintro (hport | ⟨k, (hwrite | hread | ⟨hend, hsocket⟩) | hempty⟩)
    · exact ⟨0, Or.inl hport⟩
    · exact ⟨k, Or.inr (Or.inl hwrite)⟩
    · exact ⟨k, Or.inr (Or.inr (Or.inl hread))⟩
    · -- the next round finds the port closed
      refine ⟨k + 1, Or.inl ?_⟩
      rw [portBefore]
      cases hport : port.bConnected with
      | false => rwa [TCPPort.read_unconnected hport]
      | true =>
          rw [TCPPort.read_port hport, if_pos hend]
          exact (TCPPort.close_bConnected port).mpr (Or.inr hsocket)
    · exact ⟨k, Or.inr (Or.inr (Or.inr hempty))⟩

end Follow

/-- The rounds up to one that is a last one are all there are. -/
theorem ends_iff_last (p : Packet) (rest : List Packet) (port : TCPPort)
    (rounds : ℕ → ServerRound) :
    (∃ n, ∀ g, (sendQueueData ((List.range n).map rounds) ⟨p :: rest, port, [], []⟩).1 ≠
        .running g) ↔ ∃ n, Last (p :: rest) port rounds n := by
  have hends := Transition.ends_iff (Tracks (p :: rest) port rounds) (Last (p :: rest) port rounds)
    (s := ⟨p :: rest, port, [], []⟩) ⟨rfl, List.cons_ne_nil p rest, rfl⟩ fun n f h ↦ h.round
  simp only [after_round, Outcome.still_eq_none_iff] at hends
  exact hends

end Flush

/-! ## Whole calls -/

/-- A call ends exactly if the port is closed, a round breaks while packets are left that
nobody has acknowledged, or the acknowledgements cover the whole queue from its front. -/
theorem sendQueueData_ends_iff (p : Packet) (rest : List Packet) (port : TCPPort)
    (rounds : ℕ → ServerRound) :
    (∃ n, ∀ g, (sendQueueData ((List.range n).map rounds) ⟨p :: rest, port, [], []⟩).1 ≠
        .running g) ↔
      port.bConnected = false ∨ ∃ k, (rounds k).Breaks port (uncovered (p :: rest) rounds k) ∨
        uncovered (p :: rest) rounds (k + 1) = [] := by
  rw [Flush.ends_iff_last]
  exact Flush.exists_last_iff

/-! ## Servers that keep it busy -/

/-- Rounds without a failure whose acknowledgement, if any, does not cover the front. -/
theorem never_ends {p : Packet} {rest : List Packet} {port : TCPPort} {r : ServerRound}
    (hport : port.bConnected = true) (hwritten : r.written = [])
    (hquiet : (heard r.received).2 = .again)
    (hfront : ∀ no, r.acknowledged = some no → no.toNat < p.getDataNo.toNat) :
    ¬ ∃ n, ∀ g, (sendQueueData ((List.range n).map fun _ ↦ r) ⟨p :: rest, port, [], []⟩).1 ≠
      .running g := by
  have hsame : ∀ n, uncovered (p :: rest) (fun _ ↦ r) n = p :: rest := by
    intro n
    induction n with
    | zero => rfl
    | succ n ih =>
        rw [uncovered, ih]
        cases hack : r.acknowledged with
        | none => rfl
        | some no =>
            apply List.dropWhile_cons_of_neg
            simpa using hfront no hack
  rw [Flush.ends_iff_last, Flush.exists_last_iff]
  rintro (hclosed | ⟨k, (⟨err, herr⟩ | ⟨err, herr⟩ | ⟨hend, -⟩) | hempty⟩)
  · rw [hport] at hclosed
    cases hclosed
  · rw [hwritten, List.take_nil] at herr
    cases herr
  · rw [hquiet] at herr
    cases herr
  · rw [hquiet] at hend
    cases hend
  · rw [hsame] at hempty
    cases hempty

/-- A server that takes everything and answers with these bytes. -/
def answering (bytes : List Byte) : ServerRound := ⟨[], [], bytes.map Recv.data⟩

/-- A call for one packet on a connected port. -/
def oneQueued : Flush := ⟨[DataPacketQueue.sampleFrame 1], ⟨5, true⟩, [], []⟩

/-- Silence, a `NAK` for the packet, and an acknowledgement of the number before it. -/
theorem batch_sent_for_ever :
    (¬ ∃ n, ∀ g, (sendQueueData ((List.range n).map fun _ ↦ answering []) oneQueued).1 ≠
        .running g) ∧
      (¬ ∃ n, ∀ g, (sendQueueData ((List.range n).map fun _ ↦
        answering (Answer.bytes ⟨false, 0x01#8, letters 'r' 'a', 1#16⟩)) oneQueued).1 ≠
          .running g) ∧
      ¬ ∃ n, ∀ g, (sendQueueData ((List.range n).map fun _ ↦
        answering (Answer.bytes ⟨true, 0x01#8, letters 'r' 'a', 0#16⟩)) oneQueued).1 ≠
          .running g := by
  have hsilence : (answering []).acknowledged = none := by decide +kernel
  have hrefusal : (answering
      (Answer.bytes ⟨false, 0x01#8, letters 'r' 'a', 1#16⟩)).acknowledged = none := by
    decide +kernel
  have hearlier : (answering
      (Answer.bytes ⟨true, 0x01#8, letters 'r' 'a', 0#16⟩)).acknowledged = some 0#16 := by
    decide +kernel
  refine ⟨never_ends rfl rfl rfl ?_, never_ends rfl rfl rfl ?_, never_ends rfl rfl rfl ?_⟩
  · simp [hsilence]
  · simp [hrefusal]
  · intro no hno
    obtain rfl : 0#16 = no := Option.some.inj (hearlier.symm.trans hno)
    decide +kernel

end DeviceAgent
