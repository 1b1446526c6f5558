import DeviceAgent.SendCurrentData
import DeviceAgent.HealthCheckReport
import DeviceAgent.Foundations.Records

/-!
# One data connection

`DataTask::doProcess` runs `SendCurrentData` and then `HealthCheckReport` on the
same connection.  The server answers every packet it receives once, positively
or not, with the command word and the number that it finds in the bytes.
`IsAckNo` compares the number only, measurements and statuses are numbered
independently, and a number comes again: an answer left over from a measurement,
or from an earlier status, can be taken for that of a status.
-/

namespace DeviceAgent

/-- A status goes out as it is. -/
def Transmission.status (p : Packet) : Transmission := ⟨p, p.strCache⟩

/-- A transmission; of a status, with the number of statuses popped before it, which tells
it from a later one with the same contents. -/
structure Sent extends Transmission where
  turn : Option ℕ
  deriving DecidableEq, Repr

/-- An answer, and what it is an answer to. -/
structure Reply where
  sent : Sent
  answer : Answer
  deriving DecidableEq, Repr

structure Session where
  sender : Sender
  reporter : Reporter
  /-- `SendCurrentData` has returned and `HealthCheckReport` runs. -/
  reporting : Bool
  /-- What was written on this connection and has not reached the server, oldest first. -/
  outbound : List Sent
  /-- What the server has received and not answered yet. -/
  pending : List Sent
  /-- The answers sent on this connection. -/
  answered : List Reply
  /-- The bytes of the answers not read yet. -/
  inbound : List Byte
  deriving DecidableEq, Repr

namespace Session

inductive Event
  | pushData (data : Packet)
  | pushStatus (status : Packet)
  /-- One step of `SendCurrentData`; if it reads, it finds `count` bytes and then
  `ending`. -/
  | data (i : SendInput) (count : ℕ) (ending : Recv)
  /-- `HealthCheckReport` is entered. -/
  | enter (residue : List Byte)
  | report (i : ReportInput) (count : ℕ) (ending : Recv)
  | receive
  | answer (k : ℕ) (positive : Bool) (machine : Byte)

def start (queue statusQueue : List Packet) (port : TCPPort) : Session where
  sender := Sender.call queue port false
  reporter := ⟨.returned, 0, ⟨[], []⟩, statusQueue, port, false, []⟩
  reporting := false
  outbound := []
  pending := []
  answered := []
  inbound := []

/-- The bytes of the line that a read finds before `ending`. -/
def arriving (s : Session) (count : ℕ) (ending : Recv) : List Recv :=
  (s.inbound.take count).map Recv.data ++ [ending]

def transmit (s : Session) (t : Sent) : Session := { s with outbound := s.outbound ++ [t] }

/-- The effect on the line of a step of `SendCurrentData`. -/
def sent (s : Session) (count : ℕ) (sender : Sender) : Session :=
  match s.sender.point with
  | .write packet =>
      if sender.point = .readAck packet then
        { s.transmit ⟨.measurement packet, none⟩ with sender := sender }
      else { s with sender := sender }
  | .readAck _ => { s with sender := sender, inbound := s.inbound.drop count }
  | .unconnected =>
      if sender.point = .loop then
        { s with sender := sender, outbound := [], pending := [], answered := [], inbound := [] }
      else { s with sender := sender }
  | _ => { s with sender := sender }

/-- The effect on the line of a step of `HealthCheckReport`. -/
def reported (s : Session) (count : ℕ) (reporter : Reporter) : Session :=
  match s.reporter.point with
  | .send status =>
      if reporter.point = .readAck status then
        { s.transmit ⟨.status status, some s.reporter.popped.length⟩ with reporter := reporter }
      else { s with reporter := reporter }
  | .readAck _ => { s with reporter := reporter, inbound := s.inbound.drop count }
  | _ => { s with reporter := reporter }

/-- The answer of the server to what it has received. -/
def answerTo (t : Sent) (positive : Bool) (machine : Byte) : Answer :=
  ⟨positive, machine, t.seen.cmdField, t.seen.getDataNo⟩

def step (s : Session) : Event → Option Session
  | .pushData data =>
      some { s with sender := { s.sender with
        queue := DataPacketQueue.push s.sender.queue data } }
  | .pushStatus status =>
      some { s with reporter := { s.reporter with
        statusQueue := DataPacketQueue.push s.reporter.statusQueue status } }
  | .data i count ending =>
      if s.reporting || ending.isData then none
      else some (s.sent count (s.sender.step { i with received := s.arriving count ending }))
  | .enter residue =>
      if s.sender.point = .returned ∧ s.reporting = false then
        let reporter := { s.reporter with
          bExtCommunicationError := s.sender.bExtCommunicationError }
        some { s with reporting := true, reporter := reporter.call s.sender.port residue }
      else none
  | .report i count ending =>
      if !s.reporting || ending.isData then none
      else some (s.reported count (s.reporter.step { i with received := s.arriving count ending }))
  | .receive =>
      match s.outbound with
      | [] => none
      | t :: rest => some { s with outbound := rest, pending := s.pending ++ [t] }
  | .answer k positive machine =>
      match s.pending[k]? with
      | none => none
      | some t =>
          some { s with
            pending := s.pending.eraseIdx k
            answered := s.answered ++ [⟨t, answerTo t positive machine⟩]
            inbound := s.inbound ++ (answerTo t positive machine).bytes }

/-- The status popped in this turn was received by the server in this turn, and the
acknowledgement it was popped for is the server's to it, with its command word and its
number. -/
def MatchedEntry (s : Session) (turn : ℕ) (entry : Packet × Packet) : Prop :=
  ∃ r ∈ s.answered, r.sent = ⟨.status entry.1, some turn⟩ ∧
    (∃ machine, r.answer = answerTo r.sent true machine) ∧
    (4 < entry.1.getSize → r.answer.cmd = entry.1.cmdField) ∧
    r.answer.no = entry.1.getDataNo ∧ entry.2.strCache.take 6 = r.answer.bytes

def Matched (s : Session) : Prop :=
  ∀ turn entry, s.reporter.popped[turn]? = some entry → s.MatchedEntry turn entry

/-- The answers with bytes still to be read. -/
def unread (s : Session) : List Reply :=
  s.answered.drop (s.answered.length - s.inbound.length / 6)

/-- What may still be answered or read on this connection. -/
def outstanding (s : Session) : List Sent := s.outbound ++ s.pending ++ s.unread.map Reply.sent

/-- Nothing outstanding has the number of this status but the status itself, in its turn. -/
def Sole (s : Session) (status : Packet) : Prop :=
  ∀ t ∈ s.outstanding, t.seen.getDataNo = status.getDataNo →
    t.turn = some s.reporter.popped.length

/-- Answers are read whole, and a status is sent only if nothing else with its number is
outstanding on this connection. -/
def Unambiguous (s : Session) : Event → Prop
  | .data _ count _ =>
      match s.sender.point with
      | .readAck _ => 6 ∣ count
      | _ => True
  | .report _ count _ =>
      match s.reporter.point with
      | .readAck _ => 6 ∣ count
      | .send status => s.Sole status
      | _ => True
  | _ => True

instance (s : Session) (status : Packet) : Decidable (s.Sole status) :=
  inferInstanceAs (Decidable (∀ t ∈ s.outstanding, _ → _))

instance (s : Session) : ∀ e, Decidable (s.Unambiguous e)
  | .data _ count _ =>
      match hpoint : s.sender.point with
      | .readAck _ => decidable_of_iff (6 ∣ count) (by simp [Unambiguous, hpoint])
      | .loop | .write _ | .unconnected | .judge _ _ | .returned =>
          isTrue (by simp [Unambiguous, hpoint])
  | .report _ count _ =>
      match hpoint : s.reporter.point with
      | .readAck _ => decidable_of_iff (6 ∣ count) (by simp [Unambiguous, hpoint])
      | .send status => decidable_of_iff (s.Sole status) (by simp [Unambiguous, hpoint])
      | .loop | .judge _ | .returned => isTrue (by simp [Unambiguous, hpoint])
  | .pushData _ | .pushStatus _ | .enter _ | .receive | .answer _ _ _ => isTrue trivial

/-! ## What is on the line -/

/-- The bytes of a list of answers. -/
def bytesOfReplies (replies : List Reply) : List Byte := replies.flatMap fun r ↦ r.answer.bytes

/-- A transmission with a turn is one of a status popped before, or of the status whose turn
it is. -/
def Tagged (turn : ℕ) (front : Option Packet) (t : Sent) : Prop :=
  ∀ n, t.turn = some n → t.toTransmission = .status t.packet ∧
    (n < turn ∨ n = turn ∧ front = some t.packet)

/-- The unread bytes are whole answers, the last ones given; the answers say what the server
found in the bytes; and turns are those of the statuses. -/
structure LineOk (turn : ℕ) (front : Option Packet) (waiting : List Sent) (answered : List Reply)
    (inbound : List Byte) : Prop where
  unread : ∃ replies, replies <:+ answered ∧ inbound = bytesOfReplies replies
  genuine : ∀ r ∈ answered, ∃ positive machine, r.answer = answerTo r.sent positive machine
  waiting : ∀ t ∈ waiting, Tagged turn front t
  answered : ∀ r ∈ answered, Tagged turn front r.sent

section Line

variable {turn : ℕ} {front : Option Packet} {outbound pending : List Sent}
  {answered : List Reply} {inbound : List Byte}

theorem lineOk_empty (turn : ℕ) (front : Option Packet) : LineOk turn front [] [] [] :=
  ⟨⟨[], List.suffix_refl [], rfl⟩, by simp, by simp, by simp⟩

theorem LineOk.transmit (h : LineOk turn front (outbound ++ pending) answered inbound) {t : Sent}
    (ht : Tagged turn front t) :
    LineOk turn front (outbound ++ [t] ++ pending) answered inbound := by
  refine ⟨h.unread, h.genuine, fun u hu ↦ ?_, h.answered⟩
  simp only [List.mem_append, List.mem_singleton] at hu
  rcases hu with (hu | rfl) | hu
  · exact h.waiting u (List.mem_append_left _ hu)
  · exact ht
  · exact h.waiting u (List.mem_append_right _ hu)

theorem LineOk.read (h : LineOk turn front (outbound ++ pending) answered inbound) {count : ℕ}
    (hcount : 6 ∣ count) :
    LineOk turn front (outbound ++ pending) answered (inbound.drop count) := by
  obtain ⟨m, rfl⟩ := hcount
  obtain ⟨replies, hsuffix, rfl⟩ := h.unread
  refine ⟨⟨replies.drop m, (List.drop_suffix m replies).trans hsuffix, ?_⟩, h.genuine, h.waiting,
    h.answered⟩
  exact Records.drop_flatMap_mul _ (fun r : Reply ↦ r.answer.length_bytes) replies m

theorem LineOk.answer (h : LineOk turn front (outbound ++ pending) answered inbound) {k : ℕ}
    {t : Sent} (ht : pending[k]? = some t) (positive : Bool) (machine : Byte) :
    LineOk turn front (outbound ++ pending.eraseIdx k)
      (answered ++ [⟨t, answerTo t positive machine⟩])
      (inbound ++ (answerTo t positive machine).bytes) := by
  refine ⟨?_, fun r hr ↦ ?_, fun u hu ↦ ?_, fun r hr ↦ ?_⟩
  · obtain ⟨replies, ⟨earlier, rfl⟩, rfl⟩ := h.unread
    exact ⟨replies ++ [⟨t, answerTo t positive machine⟩], ⟨earlier, by simp⟩,
      by simp [bytesOfReplies]⟩
  · rcases List.mem_append.mp hr with hr | hr
    · exact h.genuine r hr
    · rw [List.mem_singleton.mp hr]
      exact ⟨positive, machine, rfl⟩
  · rcases List.mem_append.mp hu with hu | hu
    · exact h.waiting u (List.mem_append_left _ hu)
    · exact h.waiting u (List.mem_append_right _ ((List.eraseIdx_sublist _ k).subset hu))
  · rcases List.mem_append.mp hr with hr | hr
    · exact h.answered r hr
    · rw [List.mem_singleton.mp hr]
      exact h.waiting t (List.mem_append_right _ (List.mem_of_getElem? ht))

/-- The next status comes to the front, or the first one is pushed. -/
theorem LineOk.mono (h : LineOk turn front (outbound ++ pending) answered inbound) {turn' : ℕ}
    {front' : Option Packet} (hnext : turn < turn' ∨ turn = turn' ∧
      ∀ p, front = some p → front' = some p) :
    LineOk turn' front' (outbound ++ pending) answered inbound := by
  have htag : ∀ t, Tagged turn front t → Tagged turn' front' t := by
    intro t ht n hn
    obtain ⟨hstatus, hturn⟩ := ht n hn
    refine ⟨hstatus, ?_⟩
    rcases hnext with hlt | ⟨rfl, hfront⟩
    · left
      omega
    · exact hturn.imp_right fun hsame ↦ ⟨hsame.1, hfront _ hsame.2⟩
  exact ⟨h.unread, h.genuine, fun t ht ↦ htag t (h.waiting t ht),
    fun r hr ↦ htag r.sent (h.answered r hr)⟩

end Line

/-! ## Runs without ambiguity -/

def Ordered (s : Session) : Prop :=
  LineOk s.reporter.popped.length s.reporter.statusQueue.head? (s.outbound ++ s.pending)
    s.answered s.inbound

/-- The acknowledgement under judgement was read from whole answers, and those with the
number of the status are answers to it. -/
def Judgeable (s : Session) (status : Packet) : Prop :=
  ∃ (p : Packet) (replies : List Reply), s.reporter.ack = p.clear.append (bytesOfReplies replies) ∧
    replies ⊆ s.answered ∧ ∀ r ∈ replies, r.answer.no = status.getDataNo →
      r.sent.turn = some s.reporter.popped.length

structure Orderly (s : Session) : Prop where
  line : s.Ordered
  serves : s.reporter.Serves
  /-- Until the report begins there is nothing to match. -/
  before : s.reporting = false → s.reporter.popped = [] ∧ s.reporter.point = .returned
  sending : ∀ status, s.reporter.point = .send status → s.reporter.ack = s.reporter.ack.clear
  reading : ∀ status, s.reporter.point = .readAck status →
    s.reporter.port.bConnected = true ∧ s.Sole status
  judging : ∀ status, s.reporter.point = .judge status → s.Judgeable status
  matched : s.Matched

variable {s s' : Session}

theorem unread_eq_of (replies : List Reply) (hsuffix : replies <:+ s.answered)
    (hinbound : s.inbound = bytesOfReplies replies) : s.unread = replies := by
  obtain ⟨earlier, hsplit⟩ := hsuffix
  have hlen : s.inbound.length = 6 * replies.length := by
    rw [hinbound]
    exact Records.length_flatMap_of_mem _ fun r _ ↦ r.answer.length_bytes
  have hcount : s.answered.length - s.inbound.length / 6 = earlier.length := by
    rw [hlen, Nat.mul_div_cancel_left _ (by norm_num), ← hsplit, List.length_append]
    omega
  rw [unread, hcount, ← hsplit, List.drop_left]

/-- In a line in order, the unread answers are those whose bytes are unread. -/
theorem Ordered.unread_eq (h : s.Ordered) :
    s.unread <:+ s.answered ∧ s.inbound = bytesOfReplies s.unread := by
  obtain ⟨replies, hsuffix, hinbound⟩ := LineOk.unread h
  rw [unread_eq_of replies hsuffix hinbound]
  exact ⟨hsuffix, hinbound⟩

theorem Sole.of_subset {status : Packet} (h : s.Sole status)
    (hpopped : s'.reporter.popped = s.reporter.popped) (hsub : s'.outstanding ⊆ s.outstanding) :
    s'.Sole status := by
  intro t ht hno
  rw [hpopped]
  exact h t (hsub ht) hno

theorem orderly_start (queue statusQueue : List Packet) (port : TCPPort) :
    Orderly (start queue statusQueue port) :=
  ⟨lineOk_empty _ _, Reporter.serves_of_outside rfl, fun _ ↦ ⟨rfl, rfl⟩, by simp [start],
    by simp [start], by simp [start], by simp [start, Matched]⟩

/-- Outside the loop body of the report only the line and the log of popped
statuses matter. -/
theorem orderly_of_outside (line : s.Ordered)
    (hpoint : s.reporter.point = .returned ∨ s.reporter.point = .loop)
    (hbefore : s.reporting = false → s.reporter.popped = [] ∧ s.reporter.point = .returned)
    (hmatched : s.Matched) : Orderly s := by
  refine ⟨line, Reporter.serves_of_outside ?_, hbefore, ?_, ?_, ?_, hmatched⟩ <;>
    rcases hpoint with hpoint | hpoint <;> simp [hpoint, Reporter.statusOf]

theorem Orderly.data (h : Orderly s) (hbefore : s.reporting = false) (sender : Sender) (count : ℕ)
    (hcount : ∀ packet, s.sender.point = .readAck packet → 6 ∣ count) :
    Orderly (s.sent count sender) := by
  obtain ⟨hpopped, hpoint⟩ := h.before hbefore
  have hkeep : ∀ {s' : Session}, s'.reporter = s.reporter → s'.Ordered → Orderly s' := by
    intro s' hreporter hline
    refine orderly_of_outside hline (Or.inl (hreporter ▸ hpoint)) (fun _ ↦ ?_) ?_
    · rw [hreporter]
      exact ⟨hpopped, hpoint⟩
    · simp [Matched, hreporter, hpopped]
  unfold sent
  split
  · split
    · exact hkeep rfl (LineOk.transmit h.line fun n hn ↦ by cases hn)
    · exact hkeep rfl h.line
  · rename_i packet hread
    exact hkeep rfl (LineOk.read h.line (hcount packet hread))
  · split
    · exact hkeep rfl (lineOk_empty _ _)
    · exact hkeep rfl h.line
  · exact hkeep rfl h.line

theorem cmdField_status {p : Packet} {turn : Option ℕ} (hp : 4 < p.getSize) :
    (Sent.mk (.status p) turn).seen.cmdField = p.cmdField := by
  have hcache : (Sent.mk (.status p) turn).seen.strCache = p.strCache := rfl
  rw [Packet.cmdField, Packet.cmdField, Packet.byteAt_congr hcache (lt_trans (by norm_num) hp),
    Packet.byteAt_congr hcache hp]

theorem matchedEntry_of_judgeable (h : Orderly s) {status : Packet}
    (hpoint : s.reporter.point = .judge status)
    (hack : s.reporter.ack.isAckNo status.getDataNo = true) :
    s.MatchedEntry s.reporter.popped.length (status, s.reporter.ack) := by
  obtain ⟨p, replies, heq, hsub, hown⟩ := h.judging status hpoint
  have hbytes : bytesOfReplies replies = (replies.map Reply.answer).flatMap Answer.bytes := by
    rw [List.flatMap_map]
    rfl
  rw [heq, hbytes] at hack
  obtain ⟨a, rest, hreplies, hpos, hno⟩ := Packet.first_of_isAckNo hack
  obtain ⟨r, replies', rfl, rfl, rfl⟩ := List.map_eq_cons_iff.mp hreplies
  have hr : r ∈ s.answered := hsub List.mem_cons_self
  obtain ⟨hstatus, hturn⟩ := LineOk.answered h.line r hr _ (hown r List.mem_cons_self hno)
  have hfront := h.serves status (by rw [hpoint]; rfl)
  have hpacket : r.sent.packet = status := by
    rcases hturn with hlt | ⟨-, hsame⟩
    · exact absurd hlt (lt_irrefl _)
    · exact Option.some.inj (hsame.symm.trans hfront)
  have hsent : r.sent = ⟨.status status, some s.reporter.popped.length⟩ := by
    have hturn' := hown r List.mem_cons_self hno
    rw [hpacket] at hstatus
    rcases hcase : r.sent with ⟨transmission, turn⟩
    rw [hcase] at hstatus hturn'
    rw [show transmission = .status status from hstatus,
      show turn = some s.reporter.popped.length from hturn']
  obtain ⟨positive, machine, hanswer⟩ := LineOk.genuine h.line r hr
  have hpositive : positive = true := by
    rw [hanswer] at hpos
    exact hpos
  refine ⟨r, hr, hsent, ⟨machine, hpositive ▸ hanswer⟩, fun hsize ↦ ?_, hno, ?_⟩
  · rw [hanswer, hsent]
    exact cmdField_status hsize
  · change s.reporter.ack.strCache.take 6 = r.answer.bytes
    rw [heq, Packet.append_strCache, Packet.clear_strCache, List.nil_append, bytesOfReplies,
      List.flatMap_cons, ← r.answer.length_bytes, List.take_left]

/-- The status that has been sent is outstanding, and nothing else with its number is. -/
theorem Sole.transmit {status : Packet} (h : s.Sole status) (reporter : Reporter)
    (hpopped : reporter.popped = s.reporter.popped) :
    Sole { s.transmit ⟨.status status, some s.reporter.popped.length⟩ with reporter := reporter }
      status := by
  intro t ht hno
  change t.turn = some reporter.popped.length
  rw [hpopped]
  change t ∈ s.outbound ++ [⟨.status status, some s.reporter.popped.length⟩] ++ s.pending ++
    s.unread.map Reply.sent at ht
  simp only [List.mem_append, List.mem_singleton] at ht
  rcases ht with ((ht | rfl) | ht) | ht
  · exact h t (by simp [outstanding, ht]) hno
  · rfl
  · exact h t (by simp [outstanding, ht]) hno
  · exact h t (List.mem_append_right _ (by simpa using ht)) hno

/-- A read takes whole answers from the line, and of those only the ones to the status in its
turn have its number. -/
theorem Orderly.replies_of_read (h : Orderly s) {status : Packet}
    (hpoint : s.reporter.point = .readAck status) {count : ℕ} (hcount : 6 ∣ count)
    {ending : Recv} (hending : ∀ b, ending ≠ .data b) :
    ∃ replies, (s.reporter.port.receiveAck s.reporter.ack (s.arriving count ending)).1.packet =
        s.reporter.ack.clear.append (bytesOfReplies replies) ∧ replies ⊆ s.answered ∧
      ∀ r ∈ replies, r.answer.no = status.getDataNo →
        r.sent.turn = some s.reporter.popped.length := by
  obtain ⟨hport, hsole⟩ := h.reading status hpoint
  obtain ⟨hlast, hinbound⟩ := h.line.unread_eq
  obtain ⟨m, rfl⟩ := hcount
  have hsub : s.unread.take m ⊆ s.answered := fun r hr ↦ hlast.subset (List.mem_of_mem_take hr)
  refine ⟨s.unread.take m, ?_, hsub, fun r hr hno ↦ ?_⟩
  · have htake : s.inbound.take (6 * m) =
        ((s.unread.take m).map Reply.answer).flatMap Answer.bytes := by
      rw [hinbound, List.flatMap_map]
      exact Records.take_flatMap_mul _ (fun r : Reply ↦ r.answer.length_bytes) s.unread m
    rw [arriving, htake, TCPPort.receiveAck_answers hport _ _ hending, List.flatMap_map]
    rfl
  · obtain ⟨positive, machine, hanswer⟩ := LineOk.genuine h.line r (hsub hr)
    rw [hanswer] at hno
    refine hsole r.sent ?_ hno
    exact List.mem_append_right _ (List.mem_map_of_mem (List.mem_of_mem_take hr))

theorem Matched.getElem?_append (h : s.Matched) {last : Packet × Packet}
    (hlast : s.MatchedEntry s.reporter.popped.length last) {turn : ℕ} {entry : Packet × Packet}
    (hentry : (s.reporter.popped ++ [last])[turn]? = some entry) : s.MatchedEntry turn entry := by
  rcases lt_or_ge turn s.reporter.popped.length with hlt | hge
  · rw [List.getElem?_append_left hlt] at hentry
    exact h turn entry hentry
  · rw [List.getElem?_append_right hge, List.getElem?_singleton] at hentry
    split_ifs at hentry with hzero
    obtain rfl : turn = s.reporter.popped.length := by omega
    rw [← Option.some.inj hentry]
    exact hlast

theorem Orderly.report (h : Orderly s) (hduring : s.reporting = true) (i : ReportInput)
    (count : ℕ) (ending : Recv) (hending : ∀ b, ending ≠ .data b)
    (hi : i.received = s.arriving count ending)
    (hcount : ∀ status, s.reporter.point = .readAck status → 6 ∣ count)
    (hsole : ∀ status, s.reporter.point = .send status → s.Sole status) :
    Orderly (s.reported count (s.reporter.step i)) := by
  have hafter : ∀ {s' : Session}, s'.reporting = s.reporting → s'.reporting = false →
      s'.reporter.popped = [] ∧ s'.reporter.point = .returned := by
    intro s' heq hfalse
    rw [heq, hduring] at hfalse
    cases hfalse
  have hserves : (s.reporter.step i).Serves := h.serves.step
  have hmoves := s.reporter.step_moves i
  generalize s.reporter.step i = reporter at hserves hmoves
  cases hmoves with
  | finish hpoint hqueue =>
      simp only [reported, hpoint]
      exact orderly_of_outside h.line (Or.inl rfl) (hafter rfl) h.matched
  | take status rest hpoint hqueue =>
      simp only [reported, hpoint]
      exact ⟨h.line, hserves, hafter rfl, fun _ _ ↦ rfl, by simp, by simp, h.matched⟩
  | sent status hpoint hport hsent =>
      simp only [reported, hpoint, if_true]
      have hfront := h.serves status (by rw [hpoint]; rfl)
      refine ⟨LineOk.transmit h.line fun n hn ↦ ?_, hserves, hafter rfl, by simp,
        fun status' hread ↦ ?_, by simp, h.matched⟩
      · exact ⟨rfl, Or.inr ⟨(Option.some.inj hn).symm, hfront⟩⟩
      · obtain rfl : status = status' := ReportPoint.readAck.inj hread
        exact ⟨hport, (hsole status hpoint).transmit _ rfl⟩
  | failed status hpoint =>
      simp only [reported, hpoint, reduceCtorEq, if_false]
      refine ⟨h.line, hserves, hafter rfl, by simp, by simp, fun status' _ ↦ ?_, h.matched⟩
      refine ⟨s.reporter.ack, [], ?_, by simp, by simp⟩
      change s.reporter.ack = s.reporter.ack.clear.append []
      rw [Packet.append_nil]
      exact h.sending status hpoint
  | answered status retry hpoint =>
      obtain ⟨replies, hread, hsub, hown⟩ :=
        h.replies_of_read hpoint (hcount status hpoint) hending
      simp only [reported, hpoint]
      refine ⟨LineOk.read h.line (hcount status hpoint), hserves, hafter rfl, by simp, by simp,
        fun status' hjudge ↦ ?_, h.matched⟩
      obtain rfl : status = status' := ReportPoint.judge.inj hjudge
      refine ⟨s.reporter.ack, replies, ?_, hsub, hown⟩
      rw [← hread, ← hi]
  | accepted status hpoint hack =>
      have hentry := matchedEntry_of_judgeable h hpoint hack
      simp only [reported, hpoint]
      exact orderly_of_outside (LineOk.mono h.line (Or.inl (by simp))) (Or.inr rfl) (hafter rfl)
        fun turn entry hmem ↦ h.matched.getElem?_append hentry hmem
  | exhausted status hpoint hretry =>
      simp only [reported, hpoint]
      exact orderly_of_outside h.line (Or.inl rfl) (hafter rfl) h.matched
  | again status hpoint hretry =>
      simp only [reported, hpoint]
      exact orderly_of_outside h.line (Or.inr rfl) (hafter rfl) h.matched
  | idle hpoint =>
      simp only [reported, hpoint]
      exact h

theorem push_head {queue : List Packet} {data p : Packet} (h : queue.head? = some p) :
    (DataPacketQueue.push queue data).head? = some p := by
  rcases DataPacketQueue.push_cases queue data with heq | ⟨heq, -, -⟩
  · rwa [heq]
  · rw [heq, List.head?_append, h, Option.some_or]

theorem Orderly.pushStatus (h : Orderly s) (status : Packet) :
    Orderly { s with reporter := { s.reporter with
      statusQueue := DataPacketQueue.push s.reporter.statusQueue status } } :=
  ⟨LineOk.mono h.line (Or.inr ⟨rfl, fun _ ↦ push_head⟩),
    fun status' hstatus ↦ push_head (h.serves status' hstatus), h.before, h.sending, h.reading,
    h.judging, h.matched⟩

/-- What the server receives stays outstanding. -/
theorem Orderly.receive (h : Orderly s) {t : Sent} {rest : List Sent}
    (houtbound : s.outbound = t :: rest) :
    Orderly { s with outbound := rest, pending := s.pending ++ [t] } := by
  have hsame : ∀ u, u ∈ rest ++ (s.pending ++ [t]) ↔ u ∈ s.outbound ++ s.pending := by
    intro u
    simp [houtbound, or_comm, or_left_comm]
  have hout : outstanding { s with outbound := rest, pending := s.pending ++ [t] } ⊆
      s.outstanding := by
    intro u hu
    rcases List.mem_append.mp hu with hu | hu
    · exact List.mem_append_left _ ((hsame u).mp hu)
    · exact List.mem_append_right _ hu
  refine ⟨⟨LineOk.unread h.line, LineOk.genuine h.line,
    fun u hu ↦ LineOk.waiting h.line u ((hsame u).mp hu), LineOk.answered h.line⟩, h.serves,
    h.before, h.sending, fun status hpoint ↦ ?_, h.judging, h.matched⟩
  obtain ⟨hport, hsole⟩ := h.reading status hpoint
  exact ⟨hport, hsole.of_subset rfl hout⟩

/-- What the server answers stays outstanding until the answer is read. -/
theorem Orderly.answer (h : Orderly s) {k : ℕ} {t : Sent} (ht : s.pending[k]? = some t)
    (positive : Bool) (machine : Byte) :
    Orderly { s with
      pending := s.pending.eraseIdx k
      answered := s.answered ++ [⟨t, answerTo t positive machine⟩]
      inbound := s.inbound ++ (answerTo t positive machine).bytes } := by
  have hline := LineOk.answer h.line ht positive machine
  have hout : outstanding { s with
      pending := s.pending.eraseIdx k
      answered := s.answered ++ [⟨t, answerTo t positive machine⟩]
      inbound := s.inbound ++ (answerTo t positive machine).bytes } ⊆ s.outstanding := by
    obtain ⟨⟨earlier, hsplit⟩, hinbound⟩ := h.line.unread_eq
    intro u hu
    rw [outstanding, unread_eq_of (s.unread ++ [⟨t, answerTo t positive machine⟩])
      ⟨earlier, by rw [← List.append_assoc, hsplit]⟩ (by simp [bytesOfReplies, hinbound])] at hu
    simp only [List.map_append, List.map_singleton, List.mem_append, List.mem_singleton] at hu
    simp only [outstanding, List.mem_append]
    rcases hu with (hu | hu) | hu | rfl
    · exact Or.inl (Or.inl hu)
    · exact Or.inl (Or.inr ((List.eraseIdx_sublist _ k).subset hu))
    · exact Or.inr hu
    · exact Or.inl (Or.inr (List.mem_of_getElem? ht))
  refine ⟨hline, h.serves, h.before, h.sending, fun status hpoint ↦ ?_, fun status hpoint ↦ ?_,
    fun turn entry hentry ↦ ?_⟩
  · obtain ⟨hport, hsole⟩ := h.reading status hpoint
    exact ⟨hport, hsole.of_subset rfl hout⟩
  · obtain ⟨p, replies, heq, hsub, hown⟩ := h.judging status hpoint
    exact ⟨p, replies, heq, fun r hr ↦ List.mem_append_left _ (hsub hr), hown⟩
  · obtain ⟨r, hr, hrest⟩ := h.matched turn entry hentry
    exact ⟨r, List.mem_append_left _ hr, hrest⟩

theorem orderly_step (s : Session) (e : Event) (s' : Session) (h : Orderly s)
    (hclear : s.Unambiguous e) (hstep : s.step e = some s') : Orderly s' := by
  cases e with
  | pushData data =>
      obtain rfl := Option.some.inj hstep
      exact ⟨h.line, h.serves, h.before, h.sending, h.reading, h.judging, h.matched⟩
  | pushStatus status =>
      obtain rfl := Option.some.inj hstep
      exact h.pushStatus status
  | data i count ending =>
      simp only [step] at hstep
      split at hstep
      · cases hstep
      · rename_i hmay
        obtain rfl := Option.some.inj hstep
        simp only [Bool.or_eq_true, not_or, Bool.not_eq_true] at hmay
        refine h.data hmay.1 _ count fun packet hpoint ↦ ?_
        simpa only [Unambiguous, hpoint] using hclear
  | enter residue =>
      simp only [step] at hstep
      split at hstep
      · obtain rfl := Option.some.inj hstep
        refine orderly_of_outside h.line ?_ (by simp) h.matched
        simp only [Reporter.call]
        split
        · exact Or.inl rfl
        · exact Or.inr rfl
      · cases hstep
  | report i count ending =>
      simp only [step] at hstep
      split at hstep
      · cases hstep
      · rename_i hmay
        obtain rfl := Option.some.inj hstep
        simp only [Bool.or_eq_true, not_or, Bool.not_eq_true', Bool.not_eq_false] at hmay
        refine h.report hmay.1 _ count ending (Recv.ne_data hmay.2) rfl (fun status hpoint ↦ ?_)
          fun status hpoint ↦ ?_
        · simpa only [Unambiguous, hpoint] using hclear
        · simpa only [Unambiguous, hpoint] using hclear
  | receive =>
      simp only [step] at hstep
      split at hstep
      · cases hstep
      · rename_i t rest houtbound
        obtain rfl := Option.some.inj hstep
        exact h.receive houtbound
  | answer k positive machine =>
      simp only [step] at hstep
      split at hstep
      · cases hstep
      · rename_i t hpending
        obtain rfl := Option.some.inj hstep
        exact h.answer hpending positive machine

/-- In every run that reads answers whole and sends no status while something else with its
number is outstanding, each status is popped for the server's acknowledgement of it. -/
theorem statuses_matched (queue statusQueue : List Packet) (port : TCPPort) (s : Session)
    (h : Transition.Reaches step Unambiguous (start queue statusQueue port) s) : s.Matched :=
  (h.invariant Orderly orderly_step (orderly_start queue statusQueue port)).matched

/-- A measurement and a status are sent and acknowledged. -/
def bothAcknowledged : List Event :=
  [.data Sender.silence 0 .again, .data Sender.silence 0 .again, .receive, .answer 0 true 0x01#8,
    .data Sender.silence 6 .again, .data Sender.silence 0 .again, .data Sender.silence 0 .again,
    .enter [], .report ⟨.sent, []⟩ 0 .again, .report ⟨.sent, []⟩ 0 .again, .receive,
    .answer 0 true 0x01#8, .report ⟨.sent, []⟩ 6 .again, .report ⟨.sent, []⟩ 0 .again]

theorem statuses_matched_both :
    ∃ s, Transition.run step bothAcknowledged
        (start [DataPacketQueue.sampleFrame 7] [DataPacketQueue.sampleStatus 8 5] ⟨5, true⟩) =
          some s ∧
      s.reporter.popped.map Prod.fst = [DataPacketQueue.sampleStatus 8 5] ∧ s.Matched := by
  have hmeets : Transition.Meets step Unambiguous bothAcknowledged
      (start [DataPacketQueue.sampleFrame 7] [DataPacketQueue.sampleStatus 8 5] ⟨5, true⟩) := by
    decide +kernel
  obtain ⟨s, hrun, hpopped⟩ := Transition.exists_run step bothAcknowledged
    (start [DataPacketQueue.sampleFrame 7] [DataPacketQueue.sampleStatus 8 5] ⟨5, true⟩)
    (fun s ↦ s.reporter.popped.map Prod.fst = [DataPacketQueue.sampleStatus 8 5])
    (by decide +kernel)
  exact ⟨s, hrun, hpopped, statuses_matched _ _ _ s (.of_run hmeets hrun)⟩

/-- A measurement is sent twice because its acknowledgement is late; the second
acknowledgement is read when a status with the same number has been sent. -/
def leftoverAck : List Event :=
  [.data Sender.silence 0 .again, .data Sender.silence 0 .again, .data Sender.silence 0 .again,
    .data Sender.silence 0 .again, .data Sender.silence 0 .again, .data Sender.silence 0 .again,
    .receive, .receive, .answer 0 true 0x01#8, .data Sender.silence 6 .again,
    .answer 0 true 0x01#8, .data Sender.silence 0 .again, .data Sender.silence 0 .again,
    .enter [], .report ⟨.sent, []⟩ 0 .again, .report ⟨.sent, []⟩ 0 .again,
    .report ⟨.sent, []⟩ 6 .again, .report ⟨.sent, []⟩ 0 .again]

theorem status_popped_for_measurement :
    ∃ s, Transition.run step leftoverAck
        (start [DataPacketQueue.sampleFrame 7] [DataPacketQueue.sampleStatus 7 5] ⟨5, true⟩) =
          some s ∧
      s.reporter.popped.map Prod.fst = [DataPacketQueue.sampleStatus 7 5] ∧
      s.outbound.map (fun t ↦ t.packet) = [DataPacketQueue.sampleStatus 7 5] ∧
      (∀ r ∈ s.answered, r.answer.cmd = letters 'r' 'a') ∧ ¬ s.Matched := by
  obtain ⟨s, hrun, hpopped, houtbound, hanswered⟩ := Transition.exists_run step leftoverAck
    (start [DataPacketQueue.sampleFrame 7] [DataPacketQueue.sampleStatus 7 5] ⟨5, true⟩)
    (fun s ↦ s.reporter.popped.map Prod.fst = [DataPacketQueue.sampleStatus 7 5] ∧
      s.outbound.map (fun t ↦ t.packet) = [DataPacketQueue.sampleStatus 7 5] ∧
      ∀ r ∈ s.answered, r.answer.cmd = letters 'r' 'a')
    (by decide +kernel)
  refine ⟨s, hrun, hpopped, houtbound, hanswered, fun hmatched ↦ ?_⟩
  obtain ⟨entry, hentry, hstatus⟩ := List.map_eq_singleton_iff.mp hpopped
  obtain ⟨r, hr, -, -, hcmd, -⟩ := hmatched 0 entry (by rw [hentry]; rfl)
  rw [hanswered r hr, hstatus] at hcmd
  exact absurd (hcmd (by decide)) (by decide)

end Session

end DeviceAgent
