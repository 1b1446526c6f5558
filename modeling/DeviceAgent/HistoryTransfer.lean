import DeviceAgent.AckCodec
import DeviceAgent.FrameCodec
import DeviceAgent.TcpPort

/-!
# Transferring history data

`HistoryDataTransfer` asks the device for one number after the other, patching
the start number of the command in place, and collects the answers in a local
queue.  The queue is flushed when the counter reaches ten, which happens once.
The numbers are read and written in the byte order of the little-endian host,
and the checksum of the patched command is left as it was.
-/

namespace DeviceAgent

open ReadResult

/-! ## The command -/

namespace Packet

/-- A 16-bit field of a packed struct as the little-endian host sees it. -/
def hostWordAt (p : Packet) (i : ℕ) : Word := p.byteAt (i + 1) ++ p.byteAt i

def getStartNum (p : Packet) : ℕ := (p.hostWordAt 7).toNat

def getEndNum (p : Packet) : ℕ := (p.hostWordAt 9).toNat

def setStartNum (p : Packet) (n : ℕ) : Packet :=
  let no : Word := BitVec.ofNat 16 n
  { p with strCache := (p.strCache.set 7 (no.extractLsb' 0 8)).set 8 (no.extractLsb' 8 8) }

end Packet

/-! ## Flushing the queue -/

/-- How a call ended, if it has: it may still be running when the outside has
done all that is listed. -/
inductive Outcome (σ : Type)
  | running (s : σ)
  | thrown (e : ChannelException) (s : σ)
  | returned (s : σ)
  deriving DecidableEq

def Outcome.state {σ : Type} : Outcome σ → σ
  | .running s => s
  | .thrown _ s => s
  | .returned s => s

structure ServerRound where
  written : List SendResult
  /-- Bytes lying in the storage of the freshly constructed `ack`. -/
  residue : List Byte
  received : List Recv
  deriving DecidableEq, Repr

structure Flush where
  queue : List Packet
  port : TCPPort
  -- what the server was sent, and the positive acknowledgements taken
  sent : List Packet
  acks : List Packet
  deriving DecidableEq, Repr

def sendAll (port : TCPPort) : List Packet → List SendResult →
    List Packet × Option ChannelException
  | [], _ => ([], none)
  | p :: queue, outcomes =>
      match port.write (outcomes.headD .sent) with
      | some e => ([], some e)
      | none => (p :: (sendAll port queue outcomes.tail).1, (sendAll port queue outcomes.tail).2)

def popCovered (ackNo : Word) (queue : List Packet) : List Packet :=
  queue.dropWhile fun p ↦ decide (p.getDataNo.toNat ≤ ackNo.toNat)

def Flush.acknowledge (f : Flush) (ack : Packet) : Flush :=
  if ack.isValidAck && ack.isAck then
    { f with queue := popCovered ack.getAckNo f.queue, acks := f.acks ++ [ack] }
  else f

/-- The loop ends with the queue empty, and has used the rounds listed first. -/
def sendQueueData : List ServerRound → Flush → Outcome Flush × List ServerRound
  | [], f => (.running f, [])
  | round :: rounds, f =>
      let all := sendAll f.port f.queue round.written
      let f := { f with sent := f.sent ++ all.1 }
      match all.2 with
      | some e => (.thrown e f, rounds)
      | none =>
          let r := f.port.receiveAck ⟨[], round.residue⟩ round.received
          let f := { f with port := r.2 }
          match r.1.thrown with
          | some e => (.thrown e f, rounds)
          | none =>
              let f := f.acknowledge r.1.packet
              if f.queue = [] then (.returned f, rounds) else sendQueueData rounds f

/-! ## The transfer -/

structure History where
  cmd : Packet
  answer : Packet
  count : ℕ
  queue : List Packet
  port : TCPPort
  -- the frames sent to the device and its answers
  requests : List (List Byte)
  fetched : List Packet
  sent : List Packet
  acks : List Packet
  deriving DecidableEq, Repr

namespace History

/-- Request one answer from the device, which sends `bytes` before it falls
silent, and queue it. -/
def request (h : History) (bytes : List Byte) : History :=
  let answer := (h.answer.receiveFrameFrom (bytes.map byte ++ [zero])).packet
  { h with
    answer := answer
    count := h.count + 1
    queue := DataPacketQueue.push h.queue answer
    requests := h.requests ++ [h.cmd.strCache]
    fetched := h.fetched ++ [answer] }

def flushed (h : History) (f : Flush) : History :=
  { h with queue := f.queue, port := f.port, sent := f.sent, acks := f.acks }

def advance (h : History) (nStart : ℕ) : History := { h with cmd := h.cmd.setStartNum nStart }

/-- The loop; the first argument counts the numbers from `nStart` to `nEnd`. -/
def loop : ℕ → ℕ → List (List Byte) → List ServerRound → History → Outcome History
  | 0, _, _, _, h => .returned h
  | left + 1, nStart, dev, rounds, h =>
      let h := h.request (dev.headD [])
      if h.count = 10 then
        match sendQueueData rounds ⟨h.queue, h.port, h.sent, h.acks⟩ with
        | (.returned f, rounds) =>
            loop left (nStart + 1) dev.tail rounds ((h.flushed f).advance (nStart + 1))
        | (.thrown e f, _) => .thrown e (h.flushed f)
        | (.running f, _) => .running (h.flushed f)
      else loop left (nStart + 1) dev.tail rounds (h.advance (nStart + 1))

def start (cmd : Packet) (port : TCPPort) (residue : List Byte) : History :=
  ⟨cmd, ⟨[], residue⟩, 0, [], port, [], [], [], []⟩

end History

def historyDataTransfer (cmd : Packet) (port : TCPPort) (residue : List Byte)
    (dev : List (List Byte)) (rounds : List ServerRound) : Outcome History :=
  History.loop (cmd.getEndNum + 1 - cmd.getStartNum) cmd.getStartNum dev rounds
    (History.start cmd port residue)

/-! ## What a flush leaves behind -/

def Covered (sent acks : List Packet) (a : Packet) : Prop :=
  a ∈ sent ∧ ∃ ack ∈ acks, ack.isAck = true ∧ a.getDataNo.toNat ≤ ack.getAckNo.toNat

theorem sendAll_eq_of_none (port : TCPPort) (queue : List Packet) (outcomes : List SendResult)
    (h : (sendAll port queue outcomes).2 = none) : (sendAll port queue outcomes).1 = queue := by
  induction queue generalizing outcomes with
  | nil => simp [sendAll]
  | cons p queue ih =>
      cases hwrite : port.write (outcomes.headD .sent) with
      | some e => simp only [sendAll, hwrite, reduceCtorEq] at h
      | none =>
          simp only [sendAll, hwrite] at h ⊢
          simp [ih outcomes.tail h]

theorem Flush.acknowledge_cases (f : Flush) (ack : Packet) :
    f.acknowledge ack = f ∨
      (ack.isAck = true ∧ f.acknowledge ack =
        { f with queue := popCovered ack.getAckNo f.queue, acks := f.acks ++ [ack] }) := by
  unfold Flush.acknowledge
  split
  · rename_i hack
    exact Or.inr ⟨(Bool.and_eq_true _ _ |>.mp hack).2, rfl⟩
  · exact Or.inl rfl

theorem mem_acknowledge {f : Flush} {a : Packet} (ack : Packet) (ha : a ∈ f.queue) :
    a ∈ (f.acknowledge ack).queue ∨
      ∃ ack' ∈ (f.acknowledge ack).acks, ack'.isAck = true ∧
        a.getDataNo.toNat ≤ ack'.getAckNo.toNat := by
  rcases f.acknowledge_cases ack with heq | ⟨hack, heq⟩
  · left
    simpa [heq] using ha
  · rw [heq]
    have hsplit := List.takeWhile_append_dropWhile
      (p := fun p : Packet ↦ decide (p.getDataNo.toNat ≤ ack.getAckNo.toNat)) (l := f.queue)
    rw [← hsplit] at ha
    rcases List.mem_append.mp ha with hpopped | hkept
    · have hcovers := List.mem_takeWhile_imp hpopped
      exact Or.inr ⟨ack, by simp, hack, by simpa using hcovers⟩
    · exact Or.inl hkept

theorem acknowledge_sent (f : Flush) (ack : Packet) : (f.acknowledge ack).sent = f.sent := by
  rcases f.acknowledge_cases ack with heq | ⟨-, heq⟩ <;> simp [heq]

theorem acknowledge_acks (f : Flush) (ack : Packet) : f.acks ⊆ (f.acknowledge ack).acks := by
  rcases f.acknowledge_cases ack with heq | ⟨-, heq⟩ <;> simp [heq]

/-- A round that is not the last thing the call does: everything queued is sent,
and what leaves the queue is covered. -/
theorem sendQueueData_round {round : ServerRound} {rounds rest : List ServerRound} {f f' : Flush}
    (h : sendQueueData (round :: rounds) f = (.returned f', rest)) :
    ∃ g : Flush, g.sent = f.sent ++ f.queue ∧ f.acks ⊆ g.acks ∧
      (∀ a ∈ f.queue, a ∈ g.queue ∨
        ∃ ack ∈ g.acks, ack.isAck = true ∧ a.getDataNo.toNat ≤ ack.getAckNo.toNat) ∧
      ((g.queue = [] ∧ f' = g) ∨ sendQueueData rounds g = (.returned f', rest)) := by
  rw [sendQueueData] at h
  cases hthrown : (sendAll f.port f.queue round.written).2 with
  | some e => simp [hthrown] at h
  | none =>
      simp only [hthrown, sendAll_eq_of_none _ _ _ hthrown] at h
      generalize f.port.receiveAck ⟨[], round.residue⟩ round.received = r at h
      cases hread : r.1.thrown with
      | some e => simp [hread] at h
      | none =>
          simp only [hread] at h
          refine ⟨Flush.acknowledge ⟨f.queue, r.2, f.sent ++ f.queue, f.acks⟩ r.1.packet,
            acknowledge_sent _ _, acknowledge_acks ⟨f.queue, r.2, f.sent ++ f.queue, f.acks⟩ _,
            fun a ha ↦ mem_acknowledge _ ha, ?_⟩
          split_ifs at h with hempty
          · obtain ⟨hdone, -⟩ := Prod.mk.inj h
            exact Or.inl ⟨hempty, (Outcome.returned.inj hdone).symm⟩
          · exact Or.inr h

/-- A flush that returns has sent everything and seen it covered. -/
theorem sendQueueData_returned (rounds rest : List ServerRound) (f f' : Flush)
    (h : sendQueueData rounds f = (.returned f', rest)) :
    f'.queue = [] ∧ f.sent ⊆ f'.sent ∧ f.acks ⊆ f'.acks ∧
      ∀ a ∈ f.queue, Covered f'.sent f'.acks a := by
  induction rounds generalizing f with
  | nil => simp [sendQueueData] at h
  | cons round rounds ih =>
      obtain ⟨g, hsent, hacks, hqueue, ⟨hempty, rfl⟩ | hmore⟩ := sendQueueData_round h
      · refine ⟨hempty, by simp [hsent], hacks, fun a ha ↦ ⟨by simp [hsent, ha], ?_⟩⟩
        exact (hqueue a ha).resolve_left (by simp [hempty])
      · obtain ⟨hdone, hsent', hacks', hcovered⟩ := ih g hmore
        rw [hsent] at hsent'
        refine ⟨hdone, fun a ha ↦ hsent' (by simp [ha]), fun ack hack ↦ hacks' (hacks hack),
          fun a ha ↦ ?_⟩
        rcases hqueue a ha with hkept | hcover
        · exact hcovered a hkept
        · obtain ⟨ack, hack, hcovers⟩ := hcover
          exact ⟨hsent' (by simp [ha]), ack, hacks' hack, hcovers⟩

/-! ## One pass -/

namespace History

@[simp] theorem request_count (h : History) (bytes : List Byte) :
    (h.request bytes).count = h.count + 1 := rfl

def Passed (rounds rounds' : List ServerRound) (h h' : History) : Prop :=
  (h.count ≠ 10 ∧ h' = h) ∨
    (h.count = 10 ∧ ∃ f, sendQueueData rounds ⟨h.queue, h.port, h.sent, h.acks⟩ =
      (.returned f, rounds') ∧ h' = h.flushed f)

theorem loop_cases (left nStart : ℕ) (dev : List (List Byte)) (rounds : List ServerRound)
    (h : History) :
    (∃ rounds' h', Passed rounds rounds' (h.request (dev.headD [])) h' ∧
        loop (left + 1) nStart dev rounds h =
          loop left (nStart + 1) dev.tail rounds' (h'.advance (nStart + 1))) ∨
      ((h.request (dev.headD [])).count = 10 ∧
        ∃ f, (loop (left + 1) nStart dev rounds h).state = (h.request (dev.headD [])).flushed f ∧
          ∀ h', loop (left + 1) nStart dev rounds h ≠ .returned h') := by
  rw [loop]
  generalize h.request (dev.headD []) = g
  by_cases hten : g.count = 10
  · simp only [hten, if_true]
    rcases hflush : sendQueueData rounds ⟨g.queue, g.port, g.sent, g.acks⟩ with ⟨outcome, rounds'⟩
    cases outcome with
    | returned f => exact Or.inl ⟨rounds', g.flushed f, Or.inr ⟨hten, f, hflush, rfl⟩, rfl⟩
    | thrown e f => exact Or.inr ⟨trivial, f, rfl, by simp⟩
    | running f => exact Or.inr ⟨trivial, f, rfl, by simp⟩
  · simp only [hten, if_false]
    exact Or.inl ⟨rounds, g, Or.inl ⟨hten, rfl⟩, rfl⟩

theorem Passed.count {rounds rounds' : List ServerRound} {h h' : History}
    (hpass : Passed rounds rounds' h h') : h'.count = h.count := by
  rcases hpass with ⟨-, rfl⟩ | ⟨-, f, -, rfl⟩ <;> rfl

theorem request_fetched (h : History) (bytes : List Byte) :
    (h.request bytes).fetched = h.fetched ++ [(h.request bytes).answer] := rfl

/-! ## The logs only grow -/

structure Grows (h h' : History) : Prop where
  requests : h.requests <+: h'.requests
  fetched : h.fetched <+: h'.fetched

theorem Grows.trans {h h' h'' : History} (hone : Grows h h') (hmore : Grows h' h'') :
    Grows h h'' :=
  ⟨hone.requests.trans hmore.requests, hone.fetched.trans hmore.fetched⟩

theorem request_grows (h : History) (bytes : List Byte) : Grows h (h.request bytes) :=
  ⟨List.prefix_append _ _, List.prefix_append _ _⟩

theorem Passed.grows {rounds rounds' : List ServerRound} {h h' : History} (nStart : ℕ)
    (hpass : Passed rounds rounds' h h') : Grows h (h'.advance nStart) := by
  rcases hpass with ⟨-, rfl⟩ | ⟨-, f, -, rfl⟩ <;> exact ⟨List.prefix_rfl, List.prefix_rfl⟩

theorem request_grows_loop {left : ℕ}
    (hgrow : ∀ nStart dev rounds h, Grows h (loop left nStart dev rounds h).state)
    (nStart : ℕ) (dev : List (List Byte)) (rounds : List ServerRound) (h : History) :
    Grows (h.request (dev.headD [])) (loop (left + 1) nStart dev rounds h).state := by
  rcases loop_cases left nStart dev rounds h with ⟨rounds', h', hpass, heq⟩ | ⟨-, f, hstate, -⟩
  · rw [heq]
    exact (hpass.grows _).trans (hgrow _ _ _ _)
  · rw [hstate]
    exact ⟨List.prefix_rfl, List.prefix_rfl⟩

theorem loop_grows (left nStart : ℕ) (dev : List (List Byte)) (rounds : List ServerRound)
    (h : History) : Grows h (loop left nStart dev rounds h).state := by
  induction left generalizing nStart dev rounds h with
  | zero => exact ⟨List.prefix_rfl, List.prefix_rfl⟩
  | succ left ih => exact (h.request_grows _).trans (request_grows_loop ih _ _ _ _)

/-! ## Where the answers are -/

def Fresh (fetched : List Packet) : Prop :=
  (∀ a ∈ fetched, isFrameCRCOK a.strCache = true) ∧ (fetched.map Packet.getDataNo).Nodup

/-- Up to the tenth answer everything is queued; then the first ten are with the
server and the rest is queued for good. -/
structure Placed (h : History) : Prop where
  count : h.fetched.length = h.count
  early : h.count < 10 → h.queue = h.fetched
  late : 10 ≤ h.count → h.queue = h.fetched.drop 10 ∧
    ∀ a ∈ h.fetched.take 10, Covered h.sent h.acks a

theorem Fresh.restrict {fetched fetched' : List Packet} (hfresh : Fresh fetched')
    (hpre : fetched <+: fetched') : Fresh fetched :=
  ⟨fun a ha ↦ hfresh.1 a (hpre.subset ha), (hpre.map _).sublist.nodup hfresh.2⟩

theorem request_queue {h : History} {bytes : List Byte} (hfresh : Fresh (h.request bytes).fetched)
    (hqueue : h.queue ⊆ h.fetched) :
    (h.request bytes).queue = h.queue ++ [(h.request bytes).answer] := by
  obtain ⟨hvalid, hnodup⟩ := hfresh
  have hframe := hvalid (h.request bytes).answer (by simp [request_fetched])
  refine DataPacketQueue.push_of_fresh ?_ ?_
  · intro hsize
    have hnil : (h.request bytes).answer.strCache = [] := List.length_eq_zero_iff.mp hsize
    rw [hnil] at hframe
    exact absurd hframe (by decide)
  · intro it hit
    rw [request_fetched, List.map_append, List.nodup_append] at hnodup
    exact hnodup.2.2 _ (List.mem_map_of_mem (hqueue hit)) _ (by simp [request])

theorem Placed.queue_subset {h : History} (hplaced : Placed h) : h.queue ⊆ h.fetched := by
  by_cases hten : h.count < 10
  · rw [hplaced.early hten]
    exact fun _ ha ↦ ha
  · rw [(hplaced.late (by omega)).1]
    exact List.drop_subset _ _

theorem Placed.pass {rounds rounds' : List ServerRound} {h h' : History} {bytes : List Byte}
    (hplaced : Placed h) (hfresh : Fresh (h.request bytes).fetched)
    (hpass : Passed rounds rounds' (h.request bytes) h') : Placed h' := by
  have hqueue := request_queue hfresh hplaced.queue_subset
  have hfetched := request_fetched h bytes
  have hlength : (h.request bytes).fetched.length = h.count + 1 := by
    simp [hfetched, hplaced.count]
  rcases hpass with ⟨hten, rfl⟩ | ⟨hten, f, hflush, rfl⟩
  · have hcount : h.count + 1 ≠ 10 := hten
    refine ⟨hlength, fun hlt ↦ ?_, fun hge ↦ ?_⟩
    · rw [hqueue, hfetched, hplaced.early (by simp at hlt; omega)]
    · have hlate : 10 ≤ h.count := by
        simp only [request_count] at hge
        omega
      obtain ⟨hrest, hcovered⟩ := hplaced.late hlate
      have hten' : 10 ≤ h.fetched.length := by rw [hplaced.count]; exact hlate
      rw [hqueue, hfetched, hrest, List.drop_append_of_le_length hten',
        List.take_append_of_le_length hten']
      exact ⟨rfl, hcovered⟩
  · -- the tenth answer: the flush empties the queue
    have hcount : h.count + 1 = 10 := hten
    obtain ⟨hempty, -, -, hcovered⟩ := sendQueueData_returned _ _ _ _ hflush
    refine ⟨hlength, fun hlt ↦ ?_, fun _ ↦ ⟨?_, fun a ha ↦ hcovered a ?_⟩⟩
    · exact absurd hlt (by simp [flushed, hcount])
    · have hall : (h.request bytes).fetched.drop 10 = [] :=
        List.drop_eq_nil_of_le (by omega)
      exact hempty.trans hall.symm
    · have hmem : a ∈ (h.request bytes).fetched := List.mem_of_mem_take ha
      rwa [hfetched, ← hplaced.early (by omega), ← hqueue] at hmem

/-- A transfer that returns has made every request, and the answers are where
`Placed` says. -/
theorem loop_placed (left nStart : ℕ) (dev : List (List Byte)) (rounds : List ServerRound)
    (h h' : History) (hret : loop left nStart dev rounds h = .returned h')
    (hfresh : Fresh h'.fetched) (hplaced : Placed h) :
    Placed h' ∧ h'.count = h.count + left := by
  induction left generalizing nStart dev rounds h with
  | zero =>
      obtain rfl : h = h' := by simpa [loop] using hret
      exact ⟨hplaced, rfl⟩
  | succ left ih =>
      rcases loop_cases left nStart dev rounds h with ⟨rounds', g, hpass, heq⟩ | ⟨-, f, -, hnever⟩
      · rw [heq] at hret
        have hgrow := (hpass.grows (nStart + 1)).trans
          (loop_grows left (nStart + 1) dev.tail rounds' (g.advance (nStart + 1)))
        rw [hret] at hgrow
        have hfresh' : Fresh (h.request (dev.headD [])).fetched := hfresh.restrict hgrow.fetched
        have hg := hplaced.pass hfresh' hpass
        have hadvance : Placed (g.advance (nStart + 1)) := ⟨hg.count, hg.early, hg.late⟩
        obtain ⟨hplaced', hcount⟩ := ih _ _ _ _ hret hadvance
        have hg' : (g.advance (nStart + 1)).count = h.count + 1 := hpass.count
        exact ⟨hplaced', by omega⟩
      · exact absurd hret (hnever h')

def Delivered (h : History) : Prop :=
  h.queue = [] ∧ ∀ a ∈ h.fetched, Covered h.sent h.acks a

theorem Placed.delivered_iff {h : History} (hplaced : Placed h) :
    h.Delivered ↔ h.count = 0 ∨ h.count = 10 := by
  have hlength := hplaced.count
  constructor
  · rintro ⟨hempty, -⟩
    by_cases hten : h.count < 10
    · left
      rw [← hlength, ← hplaced.early hten, hempty]
      rfl
    · have hdrop := congrArg List.length (hplaced.late (by omega)).1
      rw [hempty, List.length_drop, List.length_nil] at hdrop
      omega
  · rintro (hzero | hten)
    · have hnil : h.fetched = [] := List.length_eq_zero_iff.mp (by omega)
      refine ⟨by rw [hplaced.early (by omega), hnil], ?_⟩
      simp [hnil]
    · obtain ⟨hrest, hcovered⟩ := hplaced.late (by omega)
      rw [List.take_of_length_le (by omega)] at hcovered
      exact ⟨by rw [hrest, List.drop_eq_nil_of_le (by omega)], hcovered⟩

end History

/-- The transfer delivers what it fetched exactly when the range has ten
numbers, the one length at which the last answer triggers the flush. -/
theorem historyDataTransfer_delivers_iff (cmd : Packet) (port : TCPPort) (residue : List Byte)
    (dev : List (List Byte)) (rounds : List ServerRound) (h : History)
    (hrange : cmd.getStartNum ≤ cmd.getEndNum)
    (hret : historyDataTransfer cmd port residue dev rounds = .returned h)
    (hfresh : History.Fresh h.fetched) :
    h.Delivered ↔ cmd.getEndNum - cmd.getStartNum = 9 := by
  have hstart : (History.start cmd port residue).Placed :=
    ⟨rfl, fun _ ↦ rfl, fun hten ↦ absurd hten (Nat.not_le.mpr (Nat.zero_lt_succ 9))⟩
  obtain ⟨hplaced, hcount⟩ := History.loop_placed _ _ _ _ _ _ hret hfresh hstart
  have hzero : (History.start cmd port residue).count = 0 := rfl
  rw [hplaced.delivered_iff, hcount, hzero]
  omega

def answerOf (no : Byte) : List Byte :=
  ((Packet.mk [] []).buildPacket [0x68, 0x41, 0x00, 0x02, 0x00, no] 0x01).strCache

/-- A command with these two bytes each as start and end number. -/
def historyCommand (first last : Byte × Byte) : Packet :=
  (Packet.mk [] []).buildPacket
    [0x68, 0x41, 0x00, 0x06, first.1, first.2, last.1, last.2, 0x00, 0x01] 0x01

def acksTen : ServerRound :=
  ⟨[], [], [.data ACK, .data 0x01, .data 0x68, .data 0x41, .data 0x00, .data 0x0a, .again]⟩

/-- The numbers from one to `last`, as the host reads them, are requested and
answered. -/
def transferTo (last : Byte) (nos : List Byte) : Outcome History :=
  historyDataTransfer (historyCommand (0x01, 0x00) (last, 0x00)) ⟨5, true⟩ [] (nos.map answerOf)
    [acksTen]

theorem historyDataTransfer_delivers_ten :
    (transferTo 0x0a [1, 2, 3, 4, 5, 6, 7, 8, 9, 10]).state.Delivered := by
  refine (historyDataTransfer_delivers_iff (historyCommand (0x01, 0x00) (0x0a, 0x00)) ⟨5, true⟩ []
    ([1, 2, 3, 4, 5, 6, 7, 8, 9, 10].map answerOf) [acksTen]
    (transferTo 0x0a [1, 2, 3, 4, 5, 6, 7, 8, 9, 10]).state ?_ ?_ ?_).mpr ?_
  · decide
  · decide
  · exact ⟨by decide, by decide⟩
  · decide

/-- A single number is fetched and then dropped with the local queue. -/
theorem historyDataTransfer_drops_single :
    transferTo 0x01 [1] = .returned (transferTo 0x01 [1]).state ∧
      History.Fresh (transferTo 0x01 [1]).state.fetched ∧
        (transferTo 0x01 [1]).state.sent = [] ∧ ¬ (transferTo 0x01 [1]).state.Delivered := by
  refine ⟨by decide +kernel, ⟨by decide, by decide⟩, by decide, ?_⟩
  rintro ⟨hempty, -⟩
  exact absurd hempty (by decide)

/-! ## The frames sent to the device -/

namespace Packet

/-- The stored checksum no longer fits once the start number is another one. -/
theorem setStartNum_rejected {p : Packet} (hok : isFrameCRCOK p.strCache = true)
    (hsize : 17 ≤ p.strCache.length) {n : ℕ} (hn : BitVec.ofNat 16 n ≠ p.hostWordAt 7) :
    isFrameCRCOK (p.setStartNum n).strCache ≠ true := by
  intro hok'
  obtain ⟨h₀, h₁, h₂, body, high, low, last, hs⟩ := exists_parts (s := p.strCache) (by omega)
  have hbody : 6 ≤ body.length := by
    rw [hs] at hsize
    simp at hsize
    omega
  obtain ⟨c₀, c₁, l₀, l₁, x, y, after, rfl⟩ :
      ∃ c₀ c₁ l₀ l₁ x y after, body = [c₀, c₁, l₀, l₁] ++ [x, y] ++ after := by
    match body, hbody with
    | c₀ :: c₁ :: l₀ :: l₁ :: x :: y :: after, _ => exact ⟨c₀, c₁, l₀, l₁, x, y, after, rfl⟩
  obtain ⟨no, hno⟩ : ∃ no : Word, no = BitVec.ofNat 16 n := ⟨_, rfl⟩
  have hs' : (p.setStartNum n).strCache = h₀ :: h₁ :: h₂ ::
      (([c₀, c₁, l₀, l₁] ++ [no.extractLsb' 0 8, no.extractLsb' 8 8] ++ after) ++
        [high, low, last]) := by
    rw [setStartNum, hs, hno]
    rfl
  rw [hs, isFrameCRCOK_parts] at hok
  rw [hs', isFrameCRCOK_parts] at hok'
  have hcrc := hok.2.2.2.trans hok'.2.2.2.symm
  have hwindow : [x, y] = [no.extractLsb' 0 8, no.extractLsb' 8 8] :=
    crc16_window_injective (~~~0#16) [c₀, c₁, l₀, l₁] after (by simp) (by simp) hcrc
  simp only [List.cons.injEq, and_true] at hwindow
  have hfield : p.hostWordAt 7 = y ++ x := by
    simp [hostWordAt, byteAt, storage, hs]
  rw [hwindow.1, hwindow.2, high_append_low] at hfield
  exact hn (hno.symm.trans hfield.symm)

end Packet

namespace History

theorem loop_one_requests (nStart : ℕ) (dev : List (List Byte)) (rounds : List ServerRound)
    (h : History) :
    (loop 1 nStart dev rounds h).state.requests = h.requests ++ [h.cmd.strCache] := by
  rcases loop_cases 0 nStart dev rounds h with ⟨rounds', h', hpass, heq⟩ | ⟨-, f, hstate, -⟩
  · rw [heq]
    rcases hpass with ⟨-, rfl⟩ | ⟨-, f, -, rfl⟩ <;> rfl
  · rw [hstate]
    rfl

/-- Behind the first pass comes the patched command, unless the flush of that
pass does not return. -/
theorem loop_two_requests (left nStart : ℕ) (dev : List (List Byte)) (rounds : List ServerRound)
    {h : History} (hcount : h.count + 1 ≠ 10) :
    h.requests ++ [h.cmd.strCache] ++ [(h.cmd.setStartNum (nStart + 1)).strCache] <+:
      (loop (left + 2) nStart dev rounds h).state.requests := by
  rcases loop_cases (left + 1) nStart dev rounds h with ⟨rounds', h', hpass, heq⟩ | ⟨hten, -⟩
  · rcases hpass with ⟨-, rfl⟩ | ⟨hten, -⟩
    · have hgrow := (request_grows_loop (loop_grows left) (nStart + 1) dev.tail rounds'
        ((h.request (dev.headD [])).advance (nStart + 1))).requests
      rw [heq]
      exact hgrow
    · exact absurd hten hcount
  · exact absurd hten hcount

end History

/-- Every frame of the transfer passes the frame check exactly when there is
only the first one. -/
theorem historyDataTransfer_requests_valid_iff (cmd : Packet) (port : TCPPort)
    (residue : List Byte) (dev : List (List Byte)) (rounds : List ServerRound)
    (hok : isFrameCRCOK cmd.strCache = true) (hsize : 17 ≤ cmd.getSize)
    (hrange : cmd.getStartNum ≤ cmd.getEndNum) :
    (∀ frame ∈ (historyDataTransfer cmd port residue dev rounds).state.requests,
        isFrameCRCOK frame = true) ↔ cmd.getStartNum = cmd.getEndNum := by
  constructor
  · intro hall
    by_contra hne
    obtain ⟨left, hleft⟩ : ∃ left, cmd.getEndNum + 1 - cmd.getStartNum = left + 2 :=
      ⟨cmd.getEndNum - cmd.getStartNum - 1, by omega⟩
    have hsecond := History.loop_two_requests left cmd.getStartNum dev rounds
      (h := History.start cmd port residue) (by simp [History.start])
    rw [historyDataTransfer, hleft] at hall
    have hpatched := hall (cmd.setStartNum (cmd.getStartNum + 1)).strCache
      (hsecond.subset (by simp [History.start]))
    refine Packet.setStartNum_rejected hok hsize (fun hno ↦ ?_) hpatched
    have hvalue := congrArg BitVec.toNat hno
    have hend := (cmd.hostWordAt 9).isLt
    rw [BitVec.toNat_ofNat, Nat.mod_eq_of_lt] at hvalue
    · exact absurd hvalue (Nat.succ_ne_self _)
    · exact lt_of_le_of_lt (by unfold Packet.getEndNum at *; omega) hend
  · intro heq frame hframe
    have hone : cmd.getEndNum + 1 - cmd.getStartNum = 1 := by omega
    rw [historyDataTransfer, hone, History.loop_one_requests] at hframe
    obtain rfl : frame = cmd.strCache := by simpa [History.start] using hframe
    exact hok

theorem historyDataTransfer_requests_valid_single :
    (transferTo 0x01 [1]).state.requests.all isFrameCRCOK = true :=
  List.all_eq_true.mpr
    ((historyDataTransfer_requests_valid_iff (historyCommand (0x01, 0x00) (0x01, 0x00)) ⟨5, true⟩
      [] ([1].map answerOf) [acksTen] (by decide) (by decide)
      (by decide)).mpr (by decide))

/-- The second of two requests carries the checksum of the first. -/
theorem historyDataTransfer_patched_invalid :
    isFrameCRCOK (historyCommand (0x01, 0x00) (0x02, 0x00)).strCache = true ∧
      (historyCommand (0x01, 0x00) (0x02, 0x00)).getSize = 17 ∧
        (transferTo 0x02 [1, 2]).state.requests.map isFrameCRCOK = [true, false] := by
  decide

/-! ## The numbers requested -/

/-- The start number of a frame as the device reads it, in network order. -/
def startField (frame : List Byte) : ℕ := (frame.getD 7 0 ++ frame.getD 8 0).toNat

theorem toNat_join (high low : Byte) : (high ++ low).toNat = high.toNat * 256 + low.toNat := by
  rw [BitVec.toNat_append, ← Nat.shiftLeft_add_eq_or_of_lt low.isLt, Nat.shiftLeft_eq]

/-- Incrementing `256 y + x` and swapping the bytes does not increment
`256 x + y`. -/
theorem swapped_succ_ne {x y : ℕ} (hx : x < 256) (hy : y < 256) :
    (y * 256 + x + 1) % 65536 % 256 * 256 + (y * 256 + x + 1) % 65536 / 256 % 256 ≠
      x * 256 + y + 1 := by
  by_cases hcarry : x = 255
  · -- the low byte is cleared, and without it the sum is below 256
    have hlow : (y * 256 + x + 1) % 65536 % 256 = 0 := by omega
    have hhigh : (y * 256 + x + 1) % 65536 / 256 % 256 < 256 := Nat.mod_lt _ (by decide)
    rw [hlow, Nat.zero_mul, Nat.zero_add]
    exact (hhigh.trans_le (by omega)).ne
  · have hword : (y * 256 + x + 1) % 65536 = y * 256 + (x + 1) := by omega
    have hlow : (y * 256 + (x + 1)) % 256 = x + 1 := Nat.mul_add_mod_of_lt (by omega)
    have hhigh : (y * 256 + (x + 1)) / 256 = y := Nat.div_eq_of_lt_le (by omega) (by omega)
    rw [hword, hlow, hhigh, Nat.mod_eq_of_lt hy]
    omega

/-- The increment in host order is not an increment in network order: it adds
256 there, or clears the high byte. -/
theorem startField_setStartNum_ne {p : Packet} (hsize : 11 ≤ p.strCache.length) :
    startField (p.setStartNum (p.getStartNum + 1)).strCache ≠ (p.wordAt 7).toNat + 1 := by
  obtain ⟨no, hno⟩ : ∃ no : Word, no = BitVec.ofNat 16 (p.getStartNum + 1) := ⟨_, rfl⟩
  have hfield : startField (p.setStartNum (p.getStartNum + 1)).strCache =
      (no.extractLsb' 0 8).toNat * 256 + (no.extractLsb' 8 8).toNat := by
    rw [startField, toNat_join, Packet.setStartNum, ← hno]
    simp [show 7 < p.strCache.length by omega, show 8 < p.strCache.length by omega]
  have hnetwork : (p.wordAt 7).toNat = (p.byteAt 7).toNat * 256 + (p.byteAt 8).toNat :=
    toNat_join _ _
  have hhost : p.getStartNum = (p.byteAt 8).toNat * 256 + (p.byteAt 7).toNat := toNat_join _ _
  have hvalue : no.toNat = (p.getStartNum + 1) % 65536 := by
    rw [hno, BitVec.toNat_ofNat]
  have hbytes : (no.extractLsb' 0 8).toNat = no.toNat % 256 ∧
      (no.extractLsb' 8 8).toNat = no.toNat / 256 % 256 := by
    constructor
    · simp
    · simp [Nat.shiftRight_eq_div_pow]
  rw [hfield, hnetwork, hbytes.1, hbytes.2, hvalue, hhost]
  exact swapped_succ_ne (p.byteAt 7).isLt (p.byteAt 8).isLt

theorem startField_eq {p : Packet} (hsize : 11 ≤ p.strCache.length) :
    startField p.strCache = (p.wordAt 7).toNat := by
  rw [startField, Packet.wordAt, p.byteAt_of_lt (by omega), p.byteAt_of_lt (by omega)]

theorem hostWordAt_eq_of_wordAt_eq {p : Packet} {i j : ℕ} (h : p.wordAt i = p.wordAt j) :
    p.hostWordAt i = p.hostWordAt j := by
  have hhigh := congrArg crcHigh h
  have hlow := congrArg crcLow h
  rw [Packet.wordAt, Packet.wordAt, crcHigh_append, crcHigh_append] at hhigh
  rw [Packet.wordAt, Packet.wordAt, crcLow_append, crcLow_append] at hlow
  rw [Packet.hostWordAt, Packet.hostWordAt, hhigh, hlow]

/-- The requests run through the range, as the protocol defines its fields,
exactly when the range is a single number. -/
theorem historyDataTransfer_covers_iff (cmd : Packet) (port : TCPPort) (residue : List Byte)
    (dev : List (List Byte)) (rounds : List ServerRound) (hsize : 11 ≤ cmd.getSize)
    (hrange : (cmd.wordAt 7).toNat ≤ (cmd.wordAt 9).toNat) :
    (historyDataTransfer cmd port residue dev rounds).state.requests.map startField =
        List.range' (cmd.wordAt 7).toNat ((cmd.wordAt 9).toNat + 1 - (cmd.wordAt 7).toNat) ↔
      cmd.wordAt 7 = cmd.wordAt 9 := by
  rw [historyDataTransfer]
  constructor
  · intro hlist
    by_contra hne
    have hvalue : (cmd.wordAt 7).toNat ≠ (cmd.wordAt 9).toNat :=
      fun heq ↦ hne (BitVec.eq_of_toNat_eq heq)
    obtain ⟨k, hk⟩ : ∃ k, (cmd.wordAt 9).toNat + 1 - (cmd.wordAt 7).toNat = k + 2 :=
      ⟨(cmd.wordAt 9).toNat - (cmd.wordAt 7).toNat - 1, by omega⟩
    rw [hk, List.range'_succ, List.range'_succ] at hlist
    -- the range as the host reads it may have any length
    rcases hleft : cmd.getEndNum + 1 - cmd.getStartNum with _ | _ | left
    · rw [hleft] at hlist
      simp [History.loop, Outcome.state, History.start] at hlist
    · rw [hleft, History.loop_one_requests] at hlist
      simp [History.start] at hlist
    · rw [hleft] at hlist
      obtain ⟨more, hmore⟩ := History.loop_two_requests left cmd.getStartNum dev rounds
        (h := History.start cmd port residue) (by simp [History.start])
      rw [← hmore] at hlist
      simp only [History.start, List.nil_append, List.cons_append, List.map_cons,
        List.cons.injEq] at hlist
      exact startField_setStartNum_ne hsize hlist.2.1
  · intro heq
    have hhost : cmd.getStartNum = cmd.getEndNum :=
      congrArg BitVec.toNat (hostWordAt_eq_of_wordAt_eq heq)
    have hone : cmd.getEndNum + 1 - cmd.getStartNum = 1 := by omega
    rw [hone, History.loop_one_requests, ← heq, Nat.add_sub_cancel_left]
    simp [History.start, startField_eq hsize]

theorem historyDataTransfer_covers_single :
    (historyDataTransfer (historyCommand (0x00, 0x05) (0x00, 0x05)) ⟨5, true⟩ []
      [] []).state.requests.map startField = List.range' 5 1 :=
  (historyDataTransfer_covers_iff (historyCommand (0x00, 0x05) (0x00, 0x05)) ⟨5, true⟩ [] [] []
    (by decide) (by decide)).mpr (by decide)

/-- Asked for the numbers one and two, the transfer goes from 1 to 257. -/
theorem historyDataTransfer_skips_two :
    ((historyCommand (0x00, 0x01) (0x00, 0x02)).wordAt 7).toNat = 1 ∧
      ((historyCommand (0x00, 0x01) (0x00, 0x02)).wordAt 9).toNat = 2 ∧
        ((historyDataTransfer (historyCommand (0x00, 0x01) (0x00, 0x02)) ⟨5, true⟩ []
          [] []).state.requests.map startField).take 2 = [1, 257] := by
  decide

end DeviceAgent
