import DeviceAgent.HealthCheckReport
import DeviceAgent.Foundations.Transition

/-!
# A whole report

`HealthCheckReport` with a record of what it sends and hears.  It ends, sends no
status more than four times and pops them in order.  Whether what it takes for an
acknowledgement is one depends on the length of what was received: the number is
looked for at its offsets in the storage, where an earlier answer may have left it.
-/

namespace DeviceAgent

open ReadResult

/-- A report with a record of it. -/
structure Report where
  reporter : Reporter
  /-- How often the status at the front has been handed to `SendTo`. -/
  handed : ℕ
  /-- The bytes received since the status was sent in this pass. -/
  got : List Byte
  sent : List Packet
  /-- The statuses popped, each with the bytes received in the pass. -/
  taken : List (Packet × List Byte)
  deriving DecidableEq, Repr

/-- The bytes of the reads up to the first that brings none. -/
def bytesOf : List ReadResult → List Byte
  | byte b :: rest => b :: bytesOf rest
  | _ => []

/-- What `ReceiveAckFrom` keeps of them. -/
def fromSymbol (got : List Byte) : List Byte := got.dropWhile fun b ↦ !Packet.isSymbol b

namespace Packet

theorem collectAck_packet (p : Packet) (buff : Byte) (input : List ReadResult) :
    (collectAck p buff input).packet = p.append (buff :: bytesOf input) := by
  induction input generalizing p buff with
  | nil => rfl
  | cons r rest ih =>
      cases r with
      | byte b =>
          rw [collectAck, ih, append_append, bytesOf]
          rfl
      | zero => rfl
      | fail e => rfl

/-- The call leaves the bytes from the symbol on in the storage it finds. -/
theorem receiveAckFrom_packet (p : Packet) (input : List ReadResult) :
    (p.receiveAckFrom input).packet = p.setPacket (fromSymbol (bytesOf input)) := by
  have hscan : ∀ q : Packet, (scanAck q input).packet = q.append (fromSymbol (bytesOf input)) := by
    intro q
    have hnone : q = q.append [] := q.append_nil.symm
    induction input with
    | nil => exact hnone
    | cons r rest ih =>
        cases r with
        | byte b =>
            rw [bytesOf, fromSymbol]
            by_cases hb : b = ACK ∨ b = NAK
            · have hsym : isSymbol b = true := by simpa [isSymbol] using hb
              rw [scanAck, if_pos hb, collectAck_packet,
                List.dropWhile_cons_of_neg (by simp [hsym])]
            · have hsym : isSymbol b = false := by simpa [isSymbol] using hb
              rw [scanAck, if_neg hb, List.dropWhile_cons_of_pos (by simp [hsym])]
              exact ih
        | zero => exact hnone
        | fail e => exact hnone
  exact hscan p.clear

end Packet

namespace Report

def call (queue : List Packet) (port : TCPPort) (bExt : Bool) (residue : List Byte) : Report :=
  ⟨Reporter.call ⟨.returned, 0, ⟨[], []⟩, queue, port, bExt, []⟩ port residue, 0, [], [], []⟩

def step (i : ReportInput) (s : Report) : Report :=
  let reporter := s.reporter.step i
  match s.reporter.point with
  | .loop => { s with reporter := reporter, got := [] }
  | .send statusAnswer =>
      { s with
        reporter := reporter, handed := s.handed + 1, sent := s.sent ++ [statusAnswer] }
  | .readAck _ =>
      { s with reporter := reporter, got := bytesOf (s.reporter.port.reads i.received) }
  | .judge statusAnswer =>
      if s.reporter.ack.isAck && s.reporter.ack.isAckNo statusAnswer.getDataNo then
        { s with
          reporter := reporter, handed := 0, taken := s.taken ++ [(statusAnswer, s.got)] }
      else { s with reporter := reporter }
  | .returned => { s with reporter := reporter }

/-- Everything one step can do. -/
inductive Moves (i : ReportInput) (s : Report) : Report → Prop
  | finish (hpoint : s.reporter.point = .loop) (hqueue : s.reporter.statusQueue = []) :
      Moves i s { s with reporter := { s.reporter with point := .returned }, got := [] }
  | take (status : Packet) (rest : List Packet) (hpoint : s.reporter.point = .loop)
      (hqueue : s.reporter.statusQueue = status :: rest) :
      Moves i s { s with
        reporter := { s.reporter with point := .send status, ack := s.reporter.ack.clear }
        got := [] }
  | sent (status : Packet) (hpoint : s.reporter.point = .send status) :
      Moves i s { s with
        reporter := { s.reporter with point := .readAck status }
        handed := s.handed + 1
        sent := s.sent ++ [status] }
  | failed (status : Packet) (hpoint : s.reporter.point = .send status) :
      Moves i s { s with
        reporter := { s.reporter with point := .judge status, retry := s.reporter.retry + 1 }
        handed := s.handed + 1
        sent := s.sent ++ [status] }
  | answered (status ack : Packet) (port : TCPPort) (retry : ℕ)
      (hpoint : s.reporter.point = .readAck status)
      (hack : ack =
        s.reporter.ack.setPacket (fromSymbol (bytesOf (s.reporter.port.reads i.received))))
      (hretry : retry = s.reporter.retry ∨ retry = s.reporter.retry + 1) :
      Moves i s { s with
        reporter := { s.reporter with
          point := .judge status, ack := ack, port := port, retry := retry }
        got := bytesOf (s.reporter.port.reads i.received) }
  | accepted (status : Packet) (hpoint : s.reporter.point = .judge status)
      (hack : s.reporter.ack.isAckNo status.getDataNo = true) :
      Moves i s { s with
        reporter := { s.reporter with
          point := .loop, statusQueue := s.reporter.statusQueue.tail, retry := 0
          popped := s.reporter.popped ++ [(status, s.reporter.ack)] }
        handed := 0
        taken := s.taken ++ [(status, s.got)] }
  | exhausted (status : Packet) (hpoint : s.reporter.point = .judge status)
      (hretry : 2 < s.reporter.retry) :
      Moves i s { s with
        reporter := { s.reporter with point := .returned, bExtCommunicationError := true } }
  | again (status : Packet) (hpoint : s.reporter.point = .judge status)
      (hretry : s.reporter.retry ≤ 2) :
      Moves i s { s with
        reporter := { s.reporter with point := .loop, retry := s.reporter.retry + 1 } }
  | idle (hpoint : s.reporter.point = .returned) : Moves i s s

theorem moves_readAck {i : ReportInput} {s : Report} {status : Packet}
    (hpoint : s.reporter.point = .readAck status) : Moves i s (s.step i) := by
  have hstep : s.step i = { s with
      reporter := { s.reporter with
        point := .judge status
        ack := (s.reporter.port.receiveAck s.reporter.ack i.received).1.packet
        port := (s.reporter.port.receiveAck s.reporter.ack i.received).2
        retry := if (s.reporter.port.receiveAck s.reporter.ack i.received).1.thrown.isSome then
            s.reporter.retry + 1 else s.reporter.retry }
      got := bytesOf (s.reporter.port.reads i.received) } := by
    simp only [step, Reporter.step, hpoint]
  rw [hstep]
  refine .answered status _ _ _ hpoint (Packet.receiveAckFrom_packet _ _) ?_
  split
  · exact Or.inr rfl
  · exact Or.inl rfl

theorem moves_judge {i : ReportInput} {s : Report} {status : Packet}
    (hpoint : s.reporter.point = .judge status) : Moves i s (s.step i) := by
  cases hack : s.reporter.ack.isAckNo status.getDataNo with
  | true =>
      have hstep : s.step i = { s with
          reporter := { s.reporter with
            point := .loop, statusQueue := s.reporter.statusQueue.tail, retry := 0
            popped := s.reporter.popped ++ [(status, s.reporter.ack)] }
          handed := 0
          taken := s.taken ++ [(status, s.got)] } := by
        simp [step, Reporter.step, hpoint, hack, Packet.isAck_of_isAckNo hack,
          DataPacketQueue.pop]
      rw [hstep]
      exact .accepted status hpoint hack
  | false =>
      by_cases hretry : 2 < s.reporter.retry
      · have hstep : s.step i = { s with
            reporter := { s.reporter with
              point := .returned, bExtCommunicationError := true } } := by
          simp [step, Reporter.step, hpoint, hack, hretry]
        rw [hstep]
        exact .exhausted status hpoint hretry
      · have hstep : s.step i = { s with
            reporter := { s.reporter with point := .loop, retry := s.reporter.retry + 1 } } := by
          simp [step, Reporter.step, hpoint, hack, hretry]
        rw [hstep]
        exact .again status hpoint (Nat.le_of_not_lt hretry)

theorem step_moves (i : ReportInput) (s : Report) : Moves i s (s.step i) := by
  cases hpoint : s.reporter.point with
  | loop =>
      cases hqueue : s.reporter.statusQueue with
      | nil =>
          have hstep : s.step i =
              { s with reporter := { s.reporter with point := .returned }, got := [] } := by
            simp only [step, Reporter.step, hpoint, hqueue]
          rw [hstep]
          exact .finish hpoint hqueue
      | cons status rest =>
          have hstep : s.step i = { s with
              reporter := { s.reporter with point := .send status, ack := s.reporter.ack.clear }
              got := [] } := by
            simp only [step, Reporter.step, hpoint, hqueue]
          rw [hstep]
          exact .take status rest hpoint hqueue
  | send status =>
      cases hwrite : s.reporter.port.write i.written with
      | none =>
          have hstep : s.step i = { s with
              reporter := { s.reporter with point := .readAck status }
              handed := s.handed + 1
              sent := s.sent ++ [status] } := by
            simp only [step, Reporter.step, hpoint, hwrite]
          rw [hstep]
          exact .sent status hpoint
      | some e =>
          have hstep : s.step i = { s with
              reporter := { s.reporter with
                point := .judge status, retry := s.reporter.retry + 1 }
              handed := s.handed + 1
              sent := s.sent ++ [status] } := by
            simp only [step, Reporter.step, hpoint, hwrite]
          rw [hstep]
          exact .failed status hpoint
  | readAck status => exact moves_readAck hpoint
  | judge status => exact moves_judge hpoint
  | returned =>
      have hstep : s.step i = s := by simp only [step, Reporter.step, hpoint]
      rw [hstep]
      exact .idle hpoint

/-- The record has no influence. -/
theorem step_reporter (i : ReportInput) (s : Report) :
    (s.step i).reporter = s.reporter.step i := by
  unfold step
  dsimp only
  split
  · rfl
  · rfl
  · rfl
  · split <;> rfl
  · rfl

theorem drive_reporter (input : ℕ → ReportInput) (n : ℕ) (s : Report) :
    (Transition.drive step input n s).reporter =
      Transition.drive Reporter.step input n s.reporter := by
  induction n with
  | zero => rfl
  | succ n ih => rw [Transition.drive, Transition.drive, step_reporter, ih]

/-! ## What was received -/

/-- Among the bytes is an acknowledgement with this number. -/
def Carries (no : Word) (got : List Byte) : Prop :=
  ∃ noise machine c₀ c₁ high low more,
    got = noise ++ ACK :: machine :: c₀ :: c₁ :: high :: low :: more ∧ high ++ low = no

/-- For a packet taken as the acknowledgement of a number it is a matter of length. -/
theorem carries_iff {ack : Packet} {got : List Byte} {no : Word}
    (hheard : ack.strCache = fromSymbol got) (hack : ack.isAckNo no = true) :
    Carries no got ↔ 6 ≤ ack.getSize := by
  constructor
  · rintro ⟨noise, machine, c₀, c₁, high, low, more, rfl, -⟩
    have hsuffix : ACK :: machine :: c₀ :: c₁ :: high :: low :: more <:+
        fromSymbol (noise ++ ACK :: machine :: c₀ :: c₁ :: high :: low :: more) :=
      Packet.suffix_dropWhile (List.suffix_append noise _) rfl (by decide)
    have hlen := hsuffix.length_le
    rw [Packet.getSize, hheard]
    simp only [List.length_cons] at hlen
    exact le_trans (by omega) hlen
  · intro hsix
    obtain ⟨b₀, machine, c₀, c₁, high, low, more, hbytes⟩ : ∃ b₀ b₁ b₂ b₃ b₄ b₅ more,
        ack.strCache = b₀ :: b₁ :: b₂ :: b₃ :: b₄ :: b₅ :: more := by
      rw [Packet.getSize] at hsix
      generalize ack.strCache = s at hsix
      rcases s with _ | ⟨b₀, _ | ⟨b₁, _ | ⟨b₂, _ | ⟨b₃, _ | ⟨b₄, _ | ⟨b₅, more⟩⟩⟩⟩⟩⟩
      on_goal 7 => exact ⟨b₀, b₁, b₂, b₃, b₄, b₅, more, rfl⟩
      all_goals simp at hsix
    simp only [Packet.isAckNo, Packet.wordAt, Packet.byteAt, Packet.storage, hbytes,
      List.cons_append, Bool.and_eq_true, beq_iff_eq] at hack
    obtain ⟨rfl, hno⟩ := hack
    refine ⟨got.takeWhile fun b ↦ !Packet.isSymbol b, machine, c₀, c₁, high, low, more, ?_, hno⟩
    rw [← hbytes, hheard]
    exact List.takeWhile_append_dropWhile.symm

/-! ## The invariant -/

/-- How often the front may have been sent at this point. -/
def allowance (retry : ℕ) : ReportPoint → ℕ
  | .loop => retry
  | .send _ => retry
  | .readAck _ => retry + 1
  | .judge _ => retry + 1
  | .returned => 4

/-- An exception counts twice, so that one more is possible where answers are judged. -/
def mostRetries : ReportPoint → ℕ
  | .judge _ => 4
  | .returned => 4
  | _ => 3

/-- `isOpen` is the port as the call found it. -/
structure Inv (queue : List Packet) (isOpen : Bool) (s : Report) : Prop where
  serves : s.reporter.Serves
  order : s.taken.map Prod.fst ++ s.reporter.statusQueue = queue
  heard : ∀ status, Reporter.statusOf s.reporter.point = some status →
    s.reporter.ack.strCache = fromSymbol s.got
  unread : ∀ status, s.reporter.point = .send status → s.reporter.ack.strCache = []
  retry : s.reporter.retry ≤ mostRetries s.reporter.point
  handed : s.handed ≤ allowance s.reporter.retry s.reporter.point
  four : s.handed ≤ 4
  stopped : s.reporter.point = .returned → s.reporter.statusQueue = [] ∨
    s.reporter.bExtCommunicationError = true ∨ (isOpen = false ∧ s.sent = [] ∧ s.taken = [])

theorem call_outside (queue : List Packet) (port : TCPPort) (bExt : Bool) (residue : List Byte) :
    Reporter.statusOf (call queue port bExt residue).reporter.point = none := by
  have hpoint : (call queue port bExt residue).reporter.point =
      if bExt || !port.isOpen then .returned else .loop := rfl
  rw [hpoint]
  split <;> rfl

theorem inv_call (queue : List Packet) (port : TCPPort) (bExt : Bool) (residue : List Byte) :
    Inv queue port.isOpen (call queue port bExt residue) := by
  have hpoint : (call queue port bExt residue).reporter.point =
      if bExt || !port.isOpen then .returned else .loop := rfl
  have houtside := call_outside queue port bExt residue
  refine ⟨Reporter.serves_of_outside houtside, rfl, ?_, ?_, Nat.zero_le _, Nat.zero_le _,
    Nat.zero_le _, ?_⟩
  · intro status hstatus
    rw [houtside] at hstatus
    cases hstatus
  · exact fun _ _ ↦ rfl
  · intro hreturned
    right
    rw [hpoint] at hreturned
    cases hext : bExt with
    | true => exact Or.inl rfl
    | false =>
        refine Or.inr ⟨?_, rfl, rfl⟩
        by_contra hopen
        rw [hext, Bool.eq_true_of_not_eq_false hopen] at hreturned
        cases hreturned

theorem Inv.step {queue : List Packet} {isOpen : Bool} {i : ReportInput} {s : Report}
    (h : Inv queue isOpen s) : Inv queue isOpen (s.step i) := by
  have hserves : (s.step i).reporter.Serves := by
    rw [step_reporter]
    exact h.serves.step
  have hretry := h.retry
  have hhanded := h.handed
  have hfour := h.four
  have hmoves := step_moves i s
  generalize s.step i = s' at hserves hmoves
  cases hmoves with
  | finish hpoint hqueue =>
      rw [hpoint] at hretry
      exact ⟨hserves, h.order, by simp [Reporter.statusOf], by simp,
        hretry.trans (Nat.le_succ 3), hfour, hfour, fun _ ↦ Or.inl hqueue⟩
  | take status rest hpoint hqueue =>
      rw [hpoint] at hretry hhanded
      exact ⟨hserves, h.order, fun _ _ ↦ rfl, fun _ _ ↦ rfl, hretry, hhanded, hfour, by simp⟩
  | sent status hpoint =>
      rw [hpoint] at hretry hhanded
      have hheard := h.heard status (by rw [hpoint]; rfl)
      exact ⟨hserves, h.order, fun _ _ ↦ hheard, by simp, hretry, Nat.succ_le_succ hhanded,
        Nat.succ_le_succ (hhanded.trans hretry), by simp⟩
  | failed status hpoint =>
      rw [hpoint] at hretry hhanded
      have hheard := h.heard status (by rw [hpoint]; rfl)
      exact ⟨hserves, h.order, fun _ _ ↦ hheard, by simp, Nat.succ_le_succ hretry,
        (Nat.succ_le_succ hhanded).trans (Nat.le_succ _),
        Nat.succ_le_succ (hhanded.trans hretry), by simp⟩
  | answered status ack port retry hpoint hack hretry' =>
      rw [hpoint] at hretry hhanded
      simp only [mostRetries, allowance] at hretry hhanded
      refine ⟨hserves, h.order, fun _ _ ↦ by rw [hack]; rfl, by simp, ?_, ?_, hfour, by simp⟩
      · simp only [mostRetries]
        omega
      · simp only [allowance]
        omega
  | accepted status hpoint hack =>
      obtain ⟨rest, hqueue⟩ := List.head?_eq_some_iff.mp
        (h.serves status (by rw [hpoint]; rfl))
      refine ⟨hserves, ?_, by simp [Reporter.statusOf], by simp, Nat.zero_le _, le_rfl,
        Nat.zero_le _, by simp⟩
      have horder := h.order
      rw [hqueue] at horder
      simpa [hqueue] using horder
  | exhausted status hpoint hlast =>
      rw [hpoint] at hretry
      exact ⟨hserves, h.order, by simp [Reporter.statusOf], by simp, hretry, hfour, hfour,
        fun _ ↦ Or.inr (Or.inl rfl)⟩
  | again status hpoint hmore =>
      rw [hpoint] at hhanded
      exact ⟨hserves, h.order, by simp [Reporter.statusOf], by simp, Nat.succ_le_succ hmore,
        hhanded, hfour, by simp⟩
  | idle hpoint => exact h

/-! ## Termination -/

/-- The steps a pass may still need from this point. -/
def reserve : ReportPoint → ℕ
  | .loop => 4
  | .send _ => 3
  | .readAck _ => 2
  | .judge _ => 1
  | .returned => 0

def rank (s : Report) : ℕ :=
  if s.reporter.point = .returned then 0
  else 20 * s.reporter.statusQueue.length + 4 * (4 - s.reporter.retry) +
    reserve s.reporter.point

theorem rank_step {queue : List Packet} {isOpen : Bool} {i : ReportInput} {s : Report}
    (h : Inv queue isOpen s) (hrun : s.reporter.point ≠ .returned) :
    (s.step i).rank < s.rank := by
  have hretry := h.retry
  have hrank : s.rank = 20 * s.reporter.statusQueue.length + 4 * (4 - s.reporter.retry) +
      reserve s.reporter.point := if_neg hrun
  have hmoves := step_moves i s
  generalize s.step i = s' at hmoves
  cases hmoves with
  | finish hpoint hqueue =>
      rw [hrank, hpoint, rank, if_pos rfl]
      simp [reserve]
  | take status rest hpoint hqueue =>
      rw [hrank, hpoint, rank, if_neg (by simp)]
      simp [reserve]
  | sent status hpoint =>
      rw [hrank, hpoint, rank, if_neg (by simp)]
      simp [reserve]
  | failed status hpoint =>
      rw [hrank, hpoint, rank, if_neg (by simp)]
      simp only [reserve]
      omega
  | answered status ack port retry hpoint hack hretry' =>
      rw [hrank, hpoint, rank, if_neg (by simp)]
      simp only [reserve]
      omega
  | accepted status hpoint hack =>
      obtain ⟨rest, hqueue⟩ := List.head?_eq_some_iff.mp
        (h.serves status (by rw [hpoint]; rfl))
      rw [hrank, hpoint, hqueue, rank, if_neg (by simp)]
      simp only [reserve, List.tail_cons, List.length_cons]
      omega
  | exhausted status hpoint hlast =>
      rw [hrank, hpoint, rank, if_pos rfl]
      simp [reserve]
  | again status hpoint hmore =>
      rw [hrank, hpoint, rank, if_neg (by simp)]
      simp only [reserve]
      omega
  | idle hpoint => exact absurd hpoint hrun

/-! ## Whole calls -/

theorem taken_of_accepted {i : ReportInput} {s : Report} {status : Packet}
    (hpoint : s.reporter.point = .judge status)
    (hack : s.reporter.ack.isAckNo status.getDataNo = true) :
    (s.step i).taken = s.taken ++ [(status, s.got)] := by
  simp [step, hpoint, hack, Packet.isAck_of_isAckNo hack]

theorem mem_taken_step {i : ReportInput} {s : Report} {entry : Packet × List Byte}
    (hentry : entry ∈ (s.step i).taken) :
    entry ∈ s.taken ∨ ∃ status, s.reporter.point = .judge status ∧
      s.reporter.ack.isAckNo status.getDataNo = true ∧ entry = (status, s.got) := by
  have hmoves := step_moves i s
  generalize s.step i = s' at hentry hmoves
  cases hmoves with
  | accepted status hpoint hack =>
      rcases List.mem_append.mp hentry with hold | hnew
      · exact Or.inl hold
      · exact Or.inr ⟨status, hpoint, hack, List.mem_singleton.mp hnew⟩
  | _ => exact Or.inl hentry

/-- What a call ought to do, whatever the server and the line do. -/
structure Safe (queue : List Packet) (isOpen : Bool) (run : ℕ → Report) : Prop where
  ends : ∃ n, (run n).reporter.point = .returned
  handed : ∀ n, (run n).handed ≤ 4
  onAck : ∀ n, ∀ entry ∈ (run n).taken, Carries entry.1.getDataNo entry.2
  order : ∀ n, (run n).taken.map Prod.fst ++ (run n).reporter.statusQueue = queue
  stopped : ∀ n, (run n).reporter.point = .returned →
    (run n).reporter.statusQueue = [] ∨ (run n).reporter.bExtCommunicationError = true ∨
      (isOpen = false ∧ (run n).sent = [] ∧ (run n).taken = [])

/-- Received on a packet with this storage, the bytes start with `ACK` and are too few to
carry a number, and the storage has this number at its place. -/
def Stale (no : Word) (ack : Packet) (got : List Byte) : Prop :=
  (fromSymbol got).head? = some ACK ∧ (fromSymbol got).length < 6 ∧
    (ack.setPacket (fromSymbol got)).wordAt 4 = no

theorem isAckNo_setPacket_iff (ack : Packet) (bytes : List Byte) (no : Word) :
    (ack.setPacket bytes).isAckNo no = true ↔
      bytes.head? = some ACK ∧ (ack.setPacket bytes).wordAt 4 = no := by
  have hfirst : (ack.setPacket bytes).byteAt 0 = ACK ↔ bytes.head? = some ACK := by
    cases bytes with
    | nil =>
        have hzero : (ack.setPacket []).byteAt 0 = 0#8 := Packet.byteAt_zero_of_empty rfl
        exact iff_of_false (by rw [hzero]; decide) (by simp)
    | cons b rest => simp [Packet.setPacket, Packet.byteAt, Packet.storage]
  rw [Packet.isAckNo, Bool.and_eq_true, beq_iff_eq, beq_iff_eq, hfirst]

theorem judge_of_readAck {i : ReportInput} {s : Report} {status : Packet}
    (hpoint : s.reporter.point = .readAck status) :
    (s.step i).reporter.point = .judge status ∧ (s.step i).reporter.ack =
      s.reporter.ack.setPacket (fromSymbol (bytesOf (s.reporter.port.reads i.received))) := by
  have hmoves := step_moves i s
  generalize s.step i = s' at hmoves
  cases hmoves with
  | answered status' ack port retry hpoint' hack hretry =>
      rw [hpoint] at hpoint'
      obtain rfl := ReportPoint.readAck.inj hpoint'
      exact ⟨rfl, hack⟩
  | finish hpoint' | take _ _ hpoint' | sent _ hpoint' | failed _ hpoint' | accepted _ hpoint'
  | exhausted _ hpoint' | again _ hpoint' | idle hpoint' =>
      rw [hpoint] at hpoint'
      cases hpoint'

/-- The step behind such a read reads the number in the storage and pops. -/
theorem Inv.taken_of_stale {queue : List Packet} {isOpen : Bool} {i : ReportInput} {s : Report}
    {status : Packet} (h : Inv queue isOpen s) (hpoint : s.reporter.point = .readAck status)
    (hstale : Stale status.getDataNo s.reporter.ack
      (bytesOf (s.reporter.port.reads i.received))) (j : ReportInput) :
    ∃ got, (status, got) ∈ ((s.step i).step j).taken ∧ ¬ Carries status.getDataNo got := by
  obtain ⟨hsymbol, hshort, hno⟩ := hstale
  obtain ⟨hjudge, hack⟩ := judge_of_readAck (i := i) hpoint
  have haccepted : (s.step i).reporter.ack.isAckNo status.getDataNo = true := by
    rw [hack]
    exact (isAckNo_setPacket_iff _ _ _).mpr ⟨hsymbol, hno⟩
  refine ⟨(s.step i).got, ?_, fun hcarries ↦ ?_⟩
  · rw [taken_of_accepted hjudge haccepted]
    exact List.mem_append_right _ (List.mem_singleton_self _)
  · have hheard := (h.step (i := i)).heard status (by rw [hjudge]; rfl)
    have hsix := (carries_iff hheard haccepted).mp hcarries
    rw [hack] at hsix
    exact Nat.not_le_of_lt hshort hsix

/-- What is judged to be an acknowledgement carries a number. -/
def Judged (s : Report) : Prop :=
  ∀ status, s.reporter.point = .judge status →
    s.reporter.ack.isAckNo status.getDataNo = true → 6 ≤ s.reporter.ack.getSize

theorem Inv.judged_step {queue : List Packet} {isOpen : Bool} {i : ReportInput} {s : Report}
    (h : Inv queue isOpen s)
    (hfresh : ∀ status, s.reporter.point = .readAck status → ¬ Stale status.getDataNo
      s.reporter.ack (bytesOf (s.reporter.port.reads i.received))) : Judged (s.step i) := by
  have hmoves := step_moves i s
  generalize s.step i = s' at hmoves
  cases hmoves with
  | failed status hpoint =>
      -- nothing was received, so that the packet starts with its terminator
      rintro status' - hack
      have hzero := Packet.byteAt_zero_of_empty (h.unread status hpoint)
      rw [Packet.isAckNo, hzero] at hack
      cases hack
  | answered status ack port retry hpoint hack hretry =>
      rintro status' hjudge haccepted
      obtain rfl := ReportPoint.judge.inj hjudge
      rw [hack] at haccepted ⊢
      obtain ⟨hsymbol, hno⟩ := (isAckNo_setPacket_iff _ _ _).mp haccepted
      by_contra hshort
      exact hfresh status hpoint ⟨hsymbol, Nat.lt_of_not_le hshort, hno⟩
  | idle hpoint =>
      intro status hjudge
      rw [hpoint] at hjudge
      cases hjudge
  | _ => exact fun status hjudge ↦ by cases hjudge

/-- All of it holds exactly if no read brings less than a number while the number is still
in the storage. -/
theorem report_safe_iff (queue : List Packet) (port : TCPPort) (bExt : Bool)
    (residue : List Byte) (input : ℕ → ReportInput) :
    Safe queue port.isOpen
        (fun n ↦ Transition.drive step input n (call queue port bExt residue)) ↔
      ∀ n s status, Transition.drive step input n (call queue port bExt residue) = s →
        s.reporter.point = .readAck status →
        ¬ Stale status.getDataNo s.reporter.ack
          (bytesOf (s.reporter.port.reads (input n).received)) := by
  have hkeep : ∀ (i : ReportInput) (s : Report), True → Inv queue port.isOpen s →
      Inv queue port.isOpen (s.step i) := fun i s _ hs ↦ hs.step
  have hstart := inv_call queue port bExt residue
  have hinv : ∀ n, Inv queue port.isOpen
      (Transition.drive step input n (call queue port bExt residue)) :=
    Transition.drive_invariant (fun _ ↦ trivial) hkeep hstart
  constructor
  · rintro hsafe n s status rfl hpoint hstale
    obtain ⟨got, hpopped, hnone⟩ := (hinv n).taken_of_stale hpoint hstale (input (n + 1))
    exact hnone (hsafe.onAck (n + 2) (status, got) hpopped)
  · intro hfresh
    have hjudged : ∀ n, Judged
        (Transition.drive step input n (call queue port bExt residue)) := by
      intro n
      cases n with
      | zero =>
          intro status hjudge
          have houtside := call_outside queue port bExt residue
          rw [show (call queue port bExt residue).reporter.point = .judge status from hjudge]
            at houtside
          cases houtside
      | succ n => exact (hinv n).judged_step fun status ↦ hfresh n _ status rfl
    refine ⟨?_, fun n ↦ (hinv n).four, fun n ↦ ?_, fun n ↦ (hinv n).order,
      fun n ↦ (hinv n).stopped⟩
    · have hrank : ∀ (i : ReportInput) (s : Report), True → Inv queue port.isOpen s →
          s.reporter.point ≠ .returned → (s.step i).rank < s.rank :=
        fun i s _ hs hrun ↦ rank_step hs hrun
      obtain ⟨n, -, hreturned⟩ :=
        Transition.drive_halts (fun _ ↦ trivial) hkeep rank hrank hstart
      exact ⟨n, hreturned⟩
    · induction n with
      | zero => simp [Transition.drive, call]
      | succ n ih =>
          intro entry hentry
          rcases mem_taken_step hentry with hold | ⟨status, hpoint, hack, rfl⟩
          · exact ih entry hold
          · apply (carries_iff ((hinv n).heard status (by rw [hpoint]; rfl)) hack).mpr
            exact hjudged n status hpoint hack

/-! ## A number left in the storage -/

/-- The server first refuses the status with the number 6, and then sends a single
`ACK`. -/
def refusedThenACK (n : ℕ) : ReportInput :=
  ⟨.sent,
    if n = 2 then (Answer.bytes ⟨false, 0x01#8, letters 'w' 'a', 6#16⟩).map Recv.data
    else if n = 6 then [.data ACK] else []⟩

/-- The status is popped for a byte that carries no number: the one compared is that
of the refusal. -/
theorem popped_for_refused_number :
    (Transition.drive step refusedThenACK 8
        (call [DataPacketQueue.sampleStatus 6 1] ⟨5, true⟩ false [])).taken =
      [(DataPacketQueue.sampleStatus 6 1, [ACK])] ∧
    (DataPacketQueue.sampleStatus 6 1).getDataNo = 6#16 ∧ ¬ Carries 6#16 [ACK] := by
  refine ⟨by decide +kernel, by decide +kernel, ?_⟩
  rintro ⟨noise, machine, c₀, c₁, high, low, more, hgot, -⟩
  have hlength := congrArg List.length hgot
  simp at hlength
  omega

end Report

end DeviceAgent
