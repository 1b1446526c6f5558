import DeviceAgent.PacketQueue
import DeviceAgent.TcpPort

/-!
# Reporting statuses

`HealthCheckReport` as a machine, in the manner of `Sender`.  One `ack` serves
the whole call; it is cleared before each transmission, which leaves its old
bytes in storage.
-/

namespace DeviceAgent

inductive ReportPoint
  | loop
  | send (statusAnswer : Packet)
  | readAck (statusAnswer : Packet)
  | judge (statusAnswer : Packet)
  | returned
  deriving DecidableEq, Repr

structure Reporter where
  point : ReportPoint
  retry : ℕ
  ack : Packet
  statusQueue : List Packet
  port : TCPPort
  bExtCommunicationError : Bool
  /-- The statuses popped, each with the acknowledgement that was taken for it. -/
  popped : List (Packet × Packet)
  deriving DecidableEq, Repr

/-- What the outside does during one step. -/
structure ReportInput where
  written : SendResult
  received : List Recv
  deriving DecidableEq, Repr

namespace Reporter

/-- The beginning of a call.  `residue` lies in the storage of its new `ack`. -/
def call (s : Reporter) (port : TCPPort) (residue : List Byte) : Reporter :=
  { s with
    point := if s.bExtCommunicationError || !port.isOpen then .returned else .loop
    retry := 0
    ack := ⟨[], residue⟩
    port := port }

def step (i : ReportInput) (s : Reporter) : Reporter :=
  match s.point with
  | .loop =>
      match s.statusQueue with
      | [] => { s with point := .returned }
      | statusAnswer :: _ => { s with point := .send statusAnswer, ack := s.ack.clear }
  | .send statusAnswer =>
      match s.port.write i.written with
      | none => { s with point := .readAck statusAnswer }
      | some _ => { s with point := .judge statusAnswer, retry := s.retry + 1 }
  | .readAck statusAnswer =>
      let r := s.port.receiveAck s.ack i.received
      let retry := if r.1.thrown.isSome then s.retry + 1 else s.retry
      { s with point := .judge statusAnswer, ack := r.1.packet, port := r.2, retry := retry }
  | .judge statusAnswer =>
      if s.ack.isAck && s.ack.isAckNo statusAnswer.getDataNo then
        { s with
          point := .loop
          statusQueue := DataPacketQueue.pop s.statusQueue
          retry := 0
          popped := s.popped ++ [(statusAnswer, s.ack)] }
      else if 2 < s.retry then { s with point := .returned, bExtCommunicationError := true }
      else { s with point := .loop, retry := s.retry + 1 }
  | .returned => s

/-- Everything one step can do. -/
inductive Moves (i : ReportInput) (s : Reporter) : Reporter → Prop
  | finish (hpoint : s.point = .loop) (hqueue : s.statusQueue = []) :
      Moves i s { s with point := .returned }
  | take (status : Packet) (rest : List Packet) (hpoint : s.point = .loop)
      (hqueue : s.statusQueue = status :: rest) :
      Moves i s { s with point := .send status, ack := s.ack.clear }
  | sent (status : Packet) (hpoint : s.point = .send status) (hport : s.port.bConnected = true)
      (hsent : i.written = .sent) : Moves i s { s with point := .readAck status }
  | failed (status : Packet) (hpoint : s.point = .send status) :
      Moves i s { s with point := .judge status, retry := s.retry + 1 }
  | answered (status : Packet) (retry : ℕ) (hpoint : s.point = .readAck status) :
      Moves i s { s with
        point := .judge status, ack := (s.port.receiveAck s.ack i.received).1.packet
        port := (s.port.receiveAck s.ack i.received).2, retry := retry }
  | accepted (status : Packet) (hpoint : s.point = .judge status)
      (hack : s.ack.isAckNo status.getDataNo = true) :
      Moves i s { s with
        point := .loop, statusQueue := s.statusQueue.tail, retry := 0
        popped := s.popped ++ [(status, s.ack)] }
  | exhausted (status : Packet) (hpoint : s.point = .judge status) (hretry : 2 < s.retry) :
      Moves i s { s with point := .returned, bExtCommunicationError := true }
  | again (status : Packet) (hpoint : s.point = .judge status) (hretry : s.retry ≤ 2) :
      Moves i s { s with point := .loop, retry := s.retry + 1 }
  | idle (hpoint : s.point = .returned) : Moves i s s

theorem moves_send {i : ReportInput} {s : Reporter} {status : Packet}
    (hpoint : s.point = .send status) : Moves i s (s.step i) := by
  cases hwrite : s.port.write i.written with
  | none =>
      have hstep : s.step i = { s with point := .readAck status } := by
        simp only [step, hpoint, hwrite]
      obtain ⟨hport, hsent⟩ := TCPPort.write_eq_none hwrite
      rw [hstep]
      exact .sent status hpoint hport hsent
  | some e =>
      have hstep : s.step i = { s with point := .judge status, retry := s.retry + 1 } := by
        simp only [step, hpoint, hwrite]
      rw [hstep]
      exact .failed status hpoint

theorem moves_judge {i : ReportInput} {s : Reporter} {status : Packet}
    (hpoint : s.point = .judge status) : Moves i s (s.step i) := by
  cases hack : s.ack.isAckNo status.getDataNo with
  | true =>
      have hstep : s.step i = { s with
          point := .loop, statusQueue := s.statusQueue.tail, retry := 0
          popped := s.popped ++ [(status, s.ack)] } := by
        simp [step, hpoint, hack, Packet.isAck_of_isAckNo hack, DataPacketQueue.pop]
      rw [hstep]
      exact .accepted status hpoint hack
  | false =>
      by_cases hretry : 2 < s.retry
      · have hstep : s.step i =
            { s with point := .returned, bExtCommunicationError := true } := by
          simp [step, hpoint, hack, hretry]
        rw [hstep]
        exact .exhausted status hpoint hretry
      · have hstep : s.step i = { s with point := .loop, retry := s.retry + 1 } := by
          simp [step, hpoint, hack, hretry]
        rw [hstep]
        exact .again status hpoint (Nat.le_of_not_lt hretry)

theorem step_moves (i : ReportInput) (s : Reporter) : Moves i s (s.step i) := by
  cases hpoint : s.point with
  | loop =>
      cases hqueue : s.statusQueue with
      | nil =>
          have hstep : s.step i = { s with point := .returned } := by
            simp only [step, hpoint, hqueue]
          rw [hstep]
          exact .finish hpoint hqueue
      | cons status rest =>
          have hstep : s.step i = { s with point := .send status, ack := s.ack.clear } := by
            simp only [step, hpoint, hqueue]
          rw [hstep]
          exact .take status rest hpoint hqueue
  | send status => exact moves_send hpoint
  | readAck status =>
      have hstep : s.step i = { s with
          point := .judge status, ack := (s.port.receiveAck s.ack i.received).1.packet
          port := (s.port.receiveAck s.ack i.received).2
          retry := if (s.port.receiveAck s.ack i.received).1.thrown.isSome then s.retry + 1
            else s.retry } := by
        simp only [step, hpoint]
      rw [hstep]
      exact .answered status _ hpoint
  | judge status => exact moves_judge hpoint
  | returned =>
      have hstep : s.step i = s := by simp only [step, hpoint]
      rw [hstep]
      exact .idle hpoint

/-- The status a point of the loop body is about. -/
def statusOf : ReportPoint → Option Packet
  | .send status => some status
  | .readAck status => some status
  | .judge status => some status
  | _ => none

/-- The copy `statusAnswer` is the front of the queue, to which other threads
only append. -/
def Serves (s : Reporter) : Prop :=
  ∀ status, statusOf s.point = some status → s.statusQueue.head? = some status

theorem serves_of_outside {s : Reporter} (h : statusOf s.point = none) : Serves s := by
  intro status hs
  rw [h] at hs
  cases hs

theorem Serves.along {s s' : Reporter} (h : Serves s) {status : Packet}
    (hs : statusOf s.point = some status) (hs' : statusOf s'.point = some status)
    (hqueue : s'.statusQueue = s.statusQueue) : Serves s' := by
  intro other hother
  obtain rfl : status = other := Option.some.inj (hs'.symm.trans hother)
  rw [hqueue]
  exact h status hs

theorem Serves.step {i : ReportInput} {s : Reporter} (h : Serves s) : Serves (s.step i) := by
  have hmoves := step_moves i s
  generalize s.step i = s' at hmoves
  cases hmoves with
  | finish => exact serves_of_outside rfl
  | take status rest hpoint hqueue =>
      intro status' hs
      obtain rfl : status = status' := Option.some.inj hs
      simp [hqueue]
  | sent status hpoint => exact h.along (by simp [hpoint, statusOf]) rfl rfl
  | failed status hpoint => exact h.along (by simp [hpoint, statusOf]) rfl rfl
  | answered status retry hpoint => exact h.along (by simp [hpoint, statusOf]) rfl rfl
  | accepted => exact serves_of_outside rfl
  | exhausted => exact serves_of_outside rfl
  | again => exact serves_of_outside rfl
  | idle => exact h

end Reporter

end DeviceAgent
