import DeviceAgent.PacketQueue
import DeviceAgent.TcpPort
import DeviceAgent.Foundations.Transition

/-!
# Sending the queued measurements

`SendCurrentData` as a machine.  The points between its calls are the program
counter, so that other threads can be interleaved; everything the outside
decides is an input of the step.  The reconnecting path goes back to the head
of the loop without touching `retry`, so the rank that proves termination also
counts whether the port is connected.
-/

namespace DeviceAgent

open CommunicationCommand

/-! ## What goes on the wire -/

namespace Packet

/-- The head, the command, the length, the number and `dummy`. -/
def sizeofDataPacketFrame : ℕ := 3 + 2 + 2 + 2 + 65

/-- What `Write` is given: as many bytes from `GetData()` on, wherever the packet
ends. -/
def dataPacketFrame (p : Packet) : List Byte :=
  (List.range sizeofDataPacketFrame).map p.byteAt

end Packet

/-- A packet and the bytes that were written for it. -/
structure Transmission where
  packet : Packet
  bytes : List Byte
  deriving DecidableEq, Repr

namespace Transmission

/-- The server sees the bytes and nothing else. -/
def seen (t : Transmission) : Packet := ⟨t.bytes, []⟩

def measurement (p : Packet) : Transmission := ⟨p, p.dataPacketFrame⟩

theorem seen_getSize (p : Packet) :
    (measurement p).seen.getSize = Packet.sizeofDataPacketFrame := by
  simp [measurement, seen, Packet.dataPacketFrame, Packet.getSize]

theorem seen_byteAt (p : Packet) {i : ℕ} (hi : i < Packet.sizeofDataPacketFrame) :
    (measurement p).seen.byteAt i = p.byteAt i := by
  rw [Packet.byteAt_of_lt _ (lt_of_lt_of_eq hi (seen_getSize p).symm)]
  simp [measurement, seen, Packet.dataPacketFrame, List.getD_eq_getElem?_getD, hi]

/-- The fields the server looks at stand in the bytes as in the packet. -/
theorem seen_cmdField (p : Packet) : (measurement p).seen.cmdField = p.cmdField := by
  rw [Packet.cmdField, Packet.cmdField, seen_byteAt p (by decide), seen_byteAt p (by decide)]

theorem seen_frameCommandType {p : Packet} (hp : 4 < p.getSize) :
    (measurement p).seen.frameCommandType = p.frameCommandType := by
  rw [Packet.frameCommandType, Packet.frameCommandType, seen_getSize, if_pos (by decide),
    if_pos hp, seen_cmdField]

theorem seen_getDataNo {p : Packet} (hp : 0 < p.getSize) :
    (measurement p).seen.getDataNo = p.getDataNo := by
  rw [Packet.getDataNo, Packet.getDataNo, seen_getSize, if_neg (by decide), if_neg (by omega),
    Packet.wordAt, Packet.wordAt, seen_byteAt p (by decide), seen_byteAt p (by decide)]

end Transmission

/-! ## Negotiating the data channel -/

/-- What the calls made by `NegoiateDataChannel` find: whether the control
channel was up at once, the port number `negoiateChannel` was assigned with the
port as it left it, the outcomes of `Connect`, and the port as a second
`negoiateChannel` leaves it. -/
structure Negotiation where
  controlDone : Bool
  assigned : ℕ
  opened : TCPPort
  connects : List ConnectResult
  reopened : TCPPort
  deriving Repr

/-- What `NegoiateDataChannel` returns, and what it leaves. -/
structure Negotiated where
  nPort : ℤ
  port : TCPPort
  bExtCommunicationError : Bool
  deriving DecidableEq, Repr

inductive ConnectLoop
  | connected (port : TCPPort)
  | poweredOff (port : TCPPort)
  | exhausted (port : TCPPort)
  deriving DecidableEq, Repr

/-- The inner loop `while (retry--)`. -/
def connectLoop (powerOff : Bool) : ℕ → List ConnectResult → TCPPort → ConnectLoop
  | 0, _, port => .exhausted port
  | retry + 1, outcomes, port =>
      match port.connect (outcomes.headD .refused) with
      | (true, port) => .connected port
      | (false, port) =>
          if powerOff then .poweredOff port else connectLoop powerOff retry outcomes.tail port

/-- The outer loop runs once: `retry_connect` starts at one.  Of the second
`negoiateChannel` at its end only the port remains. -/
def negoiateDataChannel (powerOff : Bool) (env : Negotiation) (port : TCPPort)
    (bExtCommunicationError : Bool) : Negotiated :=
  if !env.controlDone && powerOff then ⟨0, port, bExtCommunicationError⟩
  else if env.assigned = 0 then ⟨-1, env.opened, bExtCommunicationError || !powerOff⟩
  else
    match connectLoop powerOff 3 env.connects env.opened with
    | .connected port => ⟨env.assigned, port, false⟩
    | .poweredOff port => ⟨0, port, bExtCommunicationError⟩
    | .exhausted port =>
        if powerOff then ⟨0, port, bExtCommunicationError⟩ else ⟨-1, env.reopened, true⟩

theorem connectLoop_on (retry : ℕ) (outcomes : List ConnectResult) (port : TCPPort) :
    ∃ port', (connectLoop false retry outcomes port = .connected port' ∧
        port'.bConnected = true) ∨
      connectLoop false retry outcomes port = .exhausted port' := by
  induction retry generalizing outcomes port with
  | zero => exact ⟨port, Or.inr rfl⟩
  | succ retry ih =>
      rw [connectLoop]
      cases outcomes.headD .refused with
      | success socket => exact ⟨⟨socket, true⟩, Or.inl ⟨rfl, rfl⟩⟩
      | unresolved => exact ih outcomes.tail port
      | refused => exact ih outcomes.tail { port with socketID := -1 }

theorem negoiateDataChannel_on (env : Negotiation) (port : TCPPort) (bExt : Bool) :
    (negoiateDataChannel false env port bExt).bExtCommunicationError = true ∨
      ((negoiateDataChannel false env port bExt).nPort ≠ 0 ∧
        (negoiateDataChannel false env port bExt).port.bConnected = true) := by
  rw [negoiateDataChannel]
  by_cases hassigned : env.assigned = 0
  · simp [hassigned]
  · obtain ⟨port', ⟨hloop, hport⟩ | hloop⟩ := connectLoop_on 3 env.connects env.opened
    · right
      simp [hassigned, hloop, hport]
    · left
      simp [hassigned, hloop]

/-! ## The machine -/

/-- The points of `SendCurrentData` between its calls, with the locals that are
live there. -/
inductive SendPoint
  | loop
  | write (packet : Packet)
  | readAck (packet : Packet)
  | unconnected
  | judge (packet ack : Packet)
  | returned
  deriving DecidableEq, Repr

structure Sender where
  point : SendPoint
  retry : ℕ
  queue : List Packet
  port : TCPPort
  bExtCommunicationError : Bool
  /-- How often the packet at the front was handed to `Write` while the port was
  connected. -/
  handed : ℕ
  deriving DecidableEq, Repr

/-- What the outside does during one step. -/
structure SendInput where
  powerOff : Bool
  written : SendResult
  /-- Bytes lying in the storage of the freshly constructed `ack`. -/
  residue : List Byte
  received : List Recv
  negotiation : Negotiation
  deriving Repr

namespace Sender

def call (queue : List Packet) (port : TCPPort) (bExt : Bool) : Sender :=
  ⟨.loop, 0, queue, port, bExt, 0⟩

def freshAck (i : SendInput) : Packet := ⟨[], i.residue⟩

/-- Where an exception leads. -/
def caught (packet ack : Packet) : Option ChannelException → SendPoint
  | none => .judge packet ack
  | some e => if e.bUnConnected then .unconnected else .judge packet ack

/-- The tests behind `NegoiateDataChannel`. -/
def negotiated (powerOff : Bool) (s : Sender) (r : Negotiated) : Sender :=
  let s := { s with port := r.port, bExtCommunicationError := r.bExtCommunicationError }
  if r.nPort = 0 then { s with point := .returned }
  else if s.bExtCommunicationError then { s with point := .returned }
  else if powerOff then { s with point := .returned }
  else { s with point := .loop }

def step (i : SendInput) (s : Sender) : Sender :=
  match s.point with
  | .loop =>
      match s.queue with
      | [] => { s with point := .returned }
      | packet :: _ =>
          if packet.frameCommandType ≠ dataRequest then
            { s with queue := DataPacketQueue.pop s.queue, handed := 0 }
          else { s with point := .write packet }
  | .write packet =>
      let handed := if s.port.bConnected then s.handed + 1 else s.handed
      match s.port.write i.written with
      | none => { s with point := .readAck packet, handed := handed }
      | some e => { s with point := caught packet (freshAck i) (some e), handed := handed }
  | .readAck packet =>
      let r := s.port.receiveAck (freshAck i) i.received
      { s with point := caught packet r.1.packet r.1.thrown, port := r.2 }
  | .unconnected =>
      negotiated i.powerOff s
        (negoiateDataChannel i.powerOff i.negotiation s.port s.bExtCommunicationError)
  | .judge packet ack =>
      if i.powerOff then { s with point := .returned }
      else if ack.isAck && ack.isAckNo packet.getDataNo then
        { s with point := .loop, queue := DataPacketQueue.pop s.queue, retry := 0, handed := 0 }
      else if 3 < s.retry then { s with point := .returned, bExtCommunicationError := true }
      else { s with point := .loop, retry := s.retry + 1 }
  | .returned => s

/-- Everything one step can do. -/
inductive Moves (i : SendInput) (s : Sender) : Sender → Prop
  | finish (hpoint : s.point = .loop) (hqueue : s.queue = []) :
      Moves i s { s with point := .returned }
  | discard (packet : Packet) (rest : List Packet) (hpoint : s.point = .loop)
      (hqueue : s.queue = packet :: rest) (hcmd : packet.frameCommandType ≠ dataRequest) :
      Moves i s { s with queue := rest, handed := 0 }
  | take (packet : Packet) (rest : List Packet) (hpoint : s.point = .loop)
      (hqueue : s.queue = packet :: rest) (hcmd : packet.frameCommandType = dataRequest) :
      Moves i s { s with point := .write packet }
  | sent (packet : Packet) (hpoint : s.point = .write packet)
      (hport : s.port.bConnected = true) (hsent : i.written = .sent) :
      Moves i s { s with point := .readAck packet, handed := s.handed + 1 }
  | failed (packet : Packet) (hpoint : s.point = .write packet)
      (hport : s.port.bConnected = true) (hsent : i.written ≠ .sent) :
      Moves i s { s with point := .judge packet (freshAck i), handed := s.handed + 1 }
  | notConnected (packet : Packet) (hpoint : s.point = .write packet)
      (hport : s.port.bConnected = false) : Moves i s { s with point := .unconnected }
  | answered (packet : Packet) (hpoint : s.point = .readAck packet)
      (hport : s.port.bConnected = true) :
      Moves i s { s with
        point := .judge packet (s.port.receiveAck (freshAck i) i.received).1.packet
        port := (s.port.receiveAck (freshAck i) i.received).2 }
  | cutOff (packet : Packet) (port : TCPPort) (hpoint : s.point = .readAck packet)
      (hport : s.port.bConnected = false) :
      Moves i s { s with point := .unconnected, port := port }
  | giveUp (port : TCPPort) (bExt : Bool) (hpoint : s.point = .unconnected)
      (hwhy : i.powerOff = true ∨ bExt = true) :
      Moves i s { s with point := .returned, port := port, bExtCommunicationError := bExt }
  | reconnect (port : TCPPort) (hpoint : s.point = .unconnected) (hpower : i.powerOff = false)
      (hport : port.bConnected = true) :
      Moves i s { s with point := .loop, port := port, bExtCommunicationError := false }
  | switchedOff (packet ack : Packet) (hpoint : s.point = .judge packet ack)
      (hpower : i.powerOff = true) : Moves i s { s with point := .returned }
  | acknowledged (packet ack : Packet) (hpoint : s.point = .judge packet ack)
      (hpower : i.powerOff = false) (hack : ack.isAckNo packet.getDataNo = true) :
      Moves i s { s with
        point := .loop, queue := s.queue.tail, retry := 0, handed := 0 }
  | exhausted (packet ack : Packet) (hpoint : s.point = .judge packet ack)
      (hretry : 3 < s.retry) :
      Moves i s { s with point := .returned, bExtCommunicationError := true }
  | again (packet ack : Packet) (hpoint : s.point = .judge packet ack) (hretry : s.retry ≤ 3) :
      Moves i s { s with point := .loop, retry := s.retry + 1 }
  | idle (hpoint : s.point = .returned) : Moves i s s

theorem moves_loop {i : SendInput} {s : Sender} (hpoint : s.point = .loop) :
    Moves i s (s.step i) := by
  cases hqueue : s.queue with
  | nil =>
      have hstep : s.step i = { s with point := .returned } := by
        simp only [step, hpoint, hqueue]
      rw [hstep]
      exact .finish hpoint hqueue
  | cons packet rest =>
      by_cases hcmd : packet.frameCommandType = dataRequest
      · have hstep : s.step i = { s with point := .write packet } := by
          simp only [step, hpoint, hqueue, hcmd, ne_eq, not_true_eq_false, if_false]
        rw [hstep]
        exact .take packet rest hpoint hqueue hcmd
      · have hstep : s.step i = { s with queue := rest, handed := 0 } := by
          simp only [step, hpoint, hqueue, hcmd, ne_eq, not_false_eq_true, if_true,
            DataPacketQueue.pop, List.tail_cons]
        rw [hstep]
        exact .discard packet rest hpoint hqueue hcmd

theorem moves_write {i : SendInput} {s : Sender} {packet : Packet}
    (hpoint : s.point = .write packet) : Moves i s (s.step i) := by
  cases hport : s.port.bConnected with
  | false =>
      have hstep : s.step i = { s with point := .unconnected } := by
        simp [step, hpoint, hport, TCPPort.write, caught, unConnected]
      rw [hstep]
      exact .notConnected packet hpoint hport
  | true =>
      cases hsent : i.written with
      | sent =>
          have hstep : s.step i = { s with point := .readAck packet, handed := s.handed + 1 } := by
            simp [step, hpoint, hport, TCPPort.write, hsent]
          rw [hstep]
          exact .sent packet hpoint hport hsent
      | error err =>
          have hstep : s.step i =
              { s with point := .judge packet (freshAck i), handed := s.handed + 1 } := by
            simp [step, hpoint, hport, TCPPort.write, hsent, caught]
          rw [hstep]
          exact .failed packet hpoint hport (by simp [hsent])

theorem moves_readAck {i : SendInput} {s : Sender} {packet : Packet}
    (hpoint : s.point = .readAck packet) : Moves i s (s.step i) := by
  have hstep : s.step i = { s with
      point := caught packet (s.port.receiveAck (freshAck i) i.received).1.packet
        (s.port.receiveAck (freshAck i) i.received).1.thrown
      port := (s.port.receiveAck (freshAck i) i.received).2 } := by
    simp only [step, hpoint]
  cases hport : s.port.bConnected with
  | false =>
      rw [hstep, TCPPort.receiveAck_unconnected hport]
      exact .cutOff packet _ hpoint hport
  | true =>
      have hcaught : caught packet (s.port.receiveAck (freshAck i) i.received).1.packet
          (s.port.receiveAck (freshAck i) i.received).1.thrown =
          .judge packet (s.port.receiveAck (freshAck i) i.received).1.packet := by
        cases hthrown : (s.port.receiveAck (freshAck i) i.received).1.thrown with
        | none => rfl
        | some e => simp [caught, TCPPort.receiveAck_thrown hport _ _ hthrown]
      rw [hstep, hcaught]
      exact .answered packet hpoint hport

theorem moves_unconnected {i : SendInput} {s : Sender} (hpoint : s.point = .unconnected) :
    Moves i s (s.step i) := by
  have hon := negoiateDataChannel_on i.negotiation s.port s.bExtCommunicationError
  have hstep : s.step i = negotiated i.powerOff s
      (negoiateDataChannel i.powerOff i.negotiation s.port s.bExtCommunicationError) := by
    simp only [step, hpoint]
  rw [hstep]
  cases hpower : i.powerOff with
  | true =>
      have hreturned : ∀ r : Negotiated, negotiated true s r = { s with
          point := .returned, port := r.port
          bExtCommunicationError := r.bExtCommunicationError } := by
        intro r
        simp [negotiated]
      rw [hreturned]
      exact .giveUp _ _ hpoint (Or.inl hpower)
  | false =>
      generalize negoiateDataChannel false i.negotiation s.port s.bExtCommunicationError = r
        at hon ⊢
      cases hext : r.bExtCommunicationError with
      | true =>
          have hreturned : negotiated false s r = { s with
              point := .returned, port := r.port, bExtCommunicationError := true } := by
            simp [negotiated, hext]
          rw [hreturned]
          exact .giveUp _ _ hpoint (Or.inr rfl)
      | false =>
          obtain ⟨hn, hport⟩ := hon.resolve_left (by simp [hext])
          have hback : negotiated false s r = { s with
              point := .loop, port := r.port, bExtCommunicationError := false } := by
            simp [negotiated, hext, hn]
          rw [hback]
          exact .reconnect r.port hpoint hpower hport

theorem moves_judge {i : SendInput} {s : Sender} {packet ack : Packet}
    (hpoint : s.point = .judge packet ack) : Moves i s (s.step i) := by
  cases hpower : i.powerOff with
  | true =>
      have hstep : s.step i = { s with point := .returned } := by
        simp [step, hpoint, hpower]
      rw [hstep]
      exact .switchedOff packet ack hpoint hpower
  | false =>
      cases hack : ack.isAckNo packet.getDataNo with
      | true =>
          have hstep : s.step i = { s with
              point := .loop, queue := s.queue.tail, retry := 0, handed := 0 } := by
            simp [step, hpoint, hpower, hack, Packet.isAck_of_isAckNo hack, DataPacketQueue.pop]
          rw [hstep]
          exact .acknowledged packet ack hpoint hpower hack
      | false =>
          by_cases hretry : 3 < s.retry
          · have hstep : s.step i =
                { s with point := .returned, bExtCommunicationError := true } := by
              simp [step, hpoint, hpower, hack, hretry]
            rw [hstep]
            exact .exhausted packet ack hpoint hretry
          · have hstep : s.step i = { s with point := .loop, retry := s.retry + 1 } := by
              simp [step, hpoint, hpower, hack, hretry]
            rw [hstep]
            exact .again packet ack hpoint (Nat.le_of_not_lt hretry)

theorem step_moves (i : SendInput) (s : Sender) : Moves i s (s.step i) := by
  cases hpoint : s.point with
  | loop => exact moves_loop hpoint
  | write packet => exact moves_write hpoint
  | readAck packet => exact moves_readAck hpoint
  | unconnected => exact moves_unconnected hpoint
  | judge packet ack => exact moves_judge hpoint
  | returned =>
      have hstep : s.step i = s := by simp only [step, hpoint]
      rw [hstep]
      exact .idle hpoint

/-- The packet a point of the loop body is about. -/
def packetOf : SendPoint → Option Packet
  | .write packet => some packet
  | .readAck packet => some packet
  | .judge packet _ => some packet
  | _ => none

/-- The reference `packet` stays at the front of the queue, and it is a
measurement. -/
def Serves (s : Sender) : Prop :=
  ∀ packet, packetOf s.point = some packet →
    s.queue.head? = some packet ∧ packet.frameCommandType = dataRequest

theorem serves_of_outside {s : Sender} (h : packetOf s.point = none) : Serves s := by
  intro packet hp
  rw [h] at hp
  cases hp

theorem Serves.along {s s' : Sender} (h : Serves s) {packet : Packet}
    (hp : packetOf s.point = some packet) (hp' : packetOf s'.point = some packet)
    (hqueue : s'.queue = s.queue) : Serves s' := by
  intro other hother
  obtain rfl : packet = other := Option.some.inj (hp'.symm.trans hother)
  rw [hqueue]
  exact h packet hp

theorem Serves.step {i : SendInput} {s : Sender} (h : Serves s) : Serves (s.step i) := by
  have hmoves := step_moves i s
  generalize s.step i = s' at hmoves
  cases hmoves with
  | finish => exact serves_of_outside rfl
  | discard packet rest hpoint => exact serves_of_outside (by simp [hpoint, packetOf])
  | take packet rest hpoint hqueue hcmd =>
      intro packet' hp
      obtain rfl : packet = packet' := Option.some.inj hp
      exact ⟨by simp [hqueue], hcmd⟩
  | sent packet hpoint => exact h.along (by simp [hpoint, packetOf]) rfl rfl
  | failed packet hpoint => exact h.along (by simp [hpoint, packetOf]) rfl rfl
  | notConnected => exact serves_of_outside rfl
  | answered packet hpoint => exact h.along (by simp [hpoint, packetOf]) rfl rfl
  | cutOff => exact serves_of_outside rfl
  | giveUp => exact serves_of_outside rfl
  | reconnect => exact serves_of_outside rfl
  | switchedOff => exact serves_of_outside rfl
  | acknowledged => exact serves_of_outside rfl
  | exhausted => exact serves_of_outside rfl
  | again => exact serves_of_outside rfl
  | idle => exact h

/-! ## Termination -/

/-- How often the front packet may have been handed out at this point. -/
def allowance (retry : ℕ) : SendPoint → ℕ
  | .loop => retry
  | .write _ => retry
  | .readAck _ => retry + 1
  | .unconnected => retry
  | .judge _ _ => retry + 1
  | .returned => 5

structure Bounded (powerOff : Bool) (s : Sender) : Prop where
  retry : s.retry ≤ 4
  handed : s.handed ≤ allowance s.retry s.point
  connected : ∀ packet, s.point = .readAck packet → s.port.bConnected = true
  stopped : s.point = .returned →
    s.queue = [] ∨ powerOff = true ∨ s.bExtCommunicationError = true

theorem bounded_call (queue : List Packet) (port : TCPPort) (bExt powerOff : Bool) :
    Bounded powerOff (call queue port bExt) := by
  constructor <;> simp [call, allowance]

theorem Bounded.handed_le {powerOff : Bool} {s : Sender} (h : Bounded powerOff s) :
    s.handed ≤ 5 := by
  have hretry := h.retry
  refine h.handed.trans ?_
  cases s.point <;> simp only [allowance] <;> omega

theorem Bounded.step {powerOff : Bool} {i : SendInput} {s : Sender}
    (hpower : i.powerOff = powerOff) (h : Bounded powerOff s) : Bounded powerOff (s.step i) := by
  have hretry := h.retry
  have hhanded := h.handed
  have hfive := h.handed_le
  have hmoves := step_moves i s
  generalize s.step i = s' at hmoves
  cases hmoves with
  | finish hpoint hqueue => exact ⟨hretry, hfive, by simp, fun _ ↦ Or.inl hqueue⟩
  | discard packet rest hpoint hqueue hcmd =>
      exact ⟨hretry, Nat.zero_le _, by simp [hpoint], by simp [hpoint]⟩
  | take packet rest hpoint hqueue hcmd =>
      rw [hpoint] at hhanded
      exact ⟨hretry, hhanded, by simp, by simp⟩
  | sent packet hpoint hport hsent =>
      rw [hpoint] at hhanded
      exact ⟨hretry, Nat.succ_le_succ hhanded, fun _ _ ↦ hport, by simp⟩
  | failed packet hpoint hport hsent =>
      rw [hpoint] at hhanded
      exact ⟨hretry, Nat.succ_le_succ hhanded, by simp, by simp⟩
  | notConnected packet hpoint hport =>
      rw [hpoint] at hhanded
      exact ⟨hretry, hhanded, by simp, by simp⟩
  | answered packet hpoint hport =>
      rw [hpoint] at hhanded
      exact ⟨hretry, hhanded, by simp, by simp⟩
  | cutOff packet port hpoint hport =>
      rw [h.connected packet hpoint] at hport
      cases hport
  | giveUp port bExt hpoint hwhy =>
      exact ⟨hretry, hfive, by simp, fun _ ↦ Or.inr (hpower ▸ hwhy)⟩
  | reconnect port hpoint hon hport =>
      rw [hpoint] at hhanded
      exact ⟨hretry, hhanded, by simp, by simp⟩
  | switchedOff packet ack hpoint hoff =>
      exact ⟨hretry, hfive, by simp, fun _ ↦ Or.inr (Or.inl (hpower ▸ hoff))⟩
  | acknowledged packet ack hpoint hon hack =>
      exact ⟨Nat.zero_le _, Nat.zero_le _, by simp, by simp⟩
  | exhausted packet ack hpoint hlast =>
      exact ⟨hretry, hfive, by simp, fun _ ↦ Or.inr (Or.inr rfl)⟩
  | again packet ack hpoint hmore =>
      rw [hpoint] at hhanded
      exact ⟨Nat.succ_le_succ hmore, hhanded, by simp, by simp⟩
  | idle hpoint => exact h

/-- The steps a pass of the loop may still need from this point. -/
def reserve (connected : Bool) : SendPoint → ℕ
  | .loop => if connected then 5 else 8
  | .write _ => if connected then 4 else 7
  | .unconnected => 6
  | .readAck _ => 3
  | .judge _ _ => 2
  | .returned => 0

def rank (s : Sender) : ℕ :=
  if s.point = .returned then 0
  else 35 * s.queue.length + 7 * (4 - s.retry) + reserve s.port.bConnected s.point

theorem rank_step {powerOff : Bool} {i : SendInput} {s : Sender} (h : Bounded powerOff s)
    (hserves : Serves s) (hrun : s.point ≠ .returned) : (s.step i).rank < s.rank := by
  have hretry := h.retry
  have hrank : s.rank =
      35 * s.queue.length + 7 * (4 - s.retry) + reserve s.port.bConnected s.point := if_neg hrun
  have hloop : ∀ connected, 5 ≤ reserve connected .loop ∧ reserve connected .loop ≤ 8 := by
    intro connected
    cases connected <;> simp [reserve]
  have hmoves := step_moves i s
  generalize s.step i = s' at hmoves
  cases hmoves with
  | finish hpoint hqueue =>
      rw [hrank, hpoint, rank, if_pos rfl]
      have := (hloop s.port.bConnected).1
      omega
  | discard packet rest hpoint hqueue hcmd =>
      rw [hrank, hpoint, hqueue, rank, if_neg (by simp)]
      simp only [List.length_cons]
      omega
  | take packet rest hpoint hqueue hcmd =>
      rw [hrank, hpoint, rank, if_neg (by simp)]
      cases s.port.bConnected <;> simp [reserve]
  | sent packet hpoint hport hsent =>
      rw [hrank, hpoint, hport, rank, if_neg (by simp)]
      simp [reserve]
  | failed packet hpoint hport hsent =>
      rw [hrank, hpoint, hport, rank, if_neg (by simp)]
      simp [reserve]
  | notConnected packet hpoint hport =>
      rw [hrank, hpoint, hport, rank, if_neg (by simp)]
      simp [reserve]
  | answered packet hpoint hport =>
      rw [hrank, hpoint, rank, if_neg (by simp)]
      simp [reserve]
  | cutOff packet port hpoint hport =>
      rw [h.connected packet hpoint] at hport
      cases hport
  | giveUp port bExt hpoint hwhy =>
      rw [hrank, hpoint, rank, if_pos rfl]
      simp [reserve]
  | reconnect port hpoint hon hport =>
      rw [hrank, hpoint, rank, if_neg (by simp)]
      simp [reserve, hport]
  | switchedOff packet ack hpoint hoff =>
      rw [hrank, hpoint, rank, if_pos rfl]
      simp [reserve]
  | acknowledged packet ack hpoint hon hack =>
      obtain ⟨hhead, -⟩ := hserves packet (by simp [hpoint, packetOf])
      obtain ⟨rest, hqueue⟩ := List.head?_eq_some_iff.mp hhead
      have hle := (hloop s.port.bConnected).2
      rw [hrank, hpoint, hqueue, rank, if_neg (by simp)]
      simp only [reserve, List.tail_cons, List.length_cons] at hle ⊢
      omega
  | exhausted packet ack hpoint hlast =>
      rw [hrank, hpoint, rank, if_pos rfl]
      simp [reserve]
  | again packet ack hpoint hmore =>
      rw [hrank, hpoint, rank, if_neg (by simp)]
      have hle := (hloop s.port.bConnected).2
      simp only [reserve] at hle ⊢
      omega
  | idle hpoint => exact absurd hpoint hrun

/-- A server that takes every packet and never answers. -/
def silence : SendInput where
  powerOff := false
  written := .sent
  residue := []
  received := []
  negotiation := ⟨true, 50001, ⟨-1, false⟩, [.success 5], ⟨-1, false⟩⟩

end Sender

end DeviceAgent
