import DeviceAgent.AckCodec
import DeviceAgent.ControlLoop
import DeviceAgent.FrameReception
import DeviceAgent.Foundations.Exchange
import DeviceAgent.Foundations.Transition

/-!
# The shared serial line

The control thread relays commands with `TransferCmd`, the reading thread asks
for time, interval, current data and status.  `TransferCmd` and the request for
current data hold the lock from their send to their receive; `GetMPTime`,
`GetMPIntervalSecond` and `HealthCheck` send and receive without it.
-/

namespace DeviceAgent

open CommunicationCommand

/-! ## Requests -/

def Packet.setCommand (p : Packet) (word : Byte × Byte) (machine : Byte) : Packet :=
  p.buildPacket [word.1, word.2] machine

def INT_COMM_ERR : BitVec 32 := 1 <<< 17

def EXT_COMM_ERR : BitVec 32 := 1 <<< 18

/-- The length is written in the order of the host, the status in network order. -/
def mpHealthCheckCmdPacket (nStatus : BitVec 32) (machine : Byte) (bIntErr bExtErr : Bool) :
    Packet :=
  let nStatus := if bIntErr then nStatus ||| INT_COMM_ERR else nStatus &&& ~~~INT_COMM_ERR
  let nStatus := if bExtErr then nStatus ||| EXT_COMM_ERR else nStatus &&& ~~~EXT_COMM_ERR
  (Packet.mk [] []).buildPacket
    [(letters 'w' 'a').1, (letters 'w' 'a').2, 0x09, 0x00, nStatus.extractLsb' 24 8,
      nStatus.extractLsb' 16 8, nStatus.extractLsb' 8 8, nStatus.extractLsb' 0 8] machine

structure Request where
  no : ℕ
  frame : List Byte
  deriving DecidableEq, Repr

inductive Unlocked
  | getMPTime
  | getMPIntervalSecond
  | healthCheck
  deriving DecidableEq, Repr

/-- The frame each of them sends; the status and the flags are those
`HealthCheck` reports. -/
def Unlocked.frame (machine : Byte) (nStatus : BitVec 32) (flags : Flags) : Unlocked → List Byte
  | .getMPTime => ((Packet.mk [] []).setCommand (letters 'c' 'k') machine).strCache
  | .getMPIntervalSecond => ((Packet.mk [] []).setCommand (letters 'c' 'a') machine).strCache
  | .healthCheck => (mpHealthCheckCmdPacket nStatus machine flags.bInCommunicationError
      flags.bExtCommunicationError).strCache

/-! ## The two threads -/

inductive Holder
  | control
  | data
  deriving DecidableEq, Repr

inductive TransferPoint
  | idle
  | send (cmd : Packet) (retry : ℕ)
  | receive (cmd : Packet) (retry : ℕ) (own : Request)
  /-- An answer is there; `source` is the request the device answered with it. -/
  | forward (retry : ℕ) (own source : Request) (answer : List Byte)
  | unlock
  deriving DecidableEq, Repr

inductive ReadPoint
  | requestTimer
  | send (u : Unlocked)
  | receive (u : Unlocked) (own : Request)
  | lock
  | request (retry : ℕ)
  | requestReceive (retry : ℕ) (own : Request)
  /-- The second read; `first` is what the first one was the answer to. -/
  | requestAgain (retry : ℕ) (own : Request) (first : Option Request)
  | unlock
  | healthTimer
  deriving DecidableEq, Repr

def Unlocked.next : Unlocked → ReadPoint
  | .getMPTime => .send .getMPIntervalSecond
  | .getMPIntervalSecond => .lock
  | .healthCheck => .requestTimer

/-- The reading thread is between the send and the receive of an exchange made
without the lock. -/
def ReadPoint.unlockedWait : ReadPoint → Bool
  | .receive _ _ => true
  | _ => false

def ReadPoint.unlockedSend : ReadPoint → Bool
  | .send _ => true
  | _ => false

structure SerialLine where
  line : Exchange.Line Request (List Byte)
  lock : Option Holder
  sent : ℕ
  transfer : TransferPoint
  reading : ReadPoint
  /-- Each request of the reading thread that is done, with the request whose
  answer it got, if any. -/
  answered : List (Request × Option Request)
  /-- Each command relayed, with the request whose answer was sent on. -/
  forwarded : List (Request × Request)
  deriving DecidableEq, Repr

inductive SerialEvent
  | answer (frame : List Byte)
  | transferLock (cmd : Packet)
  | transferSend
  | transferReceive
  /-- The answer is sent to the server, or the port throws. -/
  | transferForward (ok : Bool)
  | transferUnlock
  | readTimer (due : Bool)
  | readSend (nStatus : BitVec 32) (flags : Flags)
  | readReceive
  | readLock
  | readUnlock
  deriving DecidableEq, Repr

namespace SerialLine

def start : SerialLine := ⟨⟨[], []⟩, none, 0, .idle, .requestTimer, [], []⟩

def newRequest (s : SerialLine) (frame : List Byte) : Request := ⟨s.sent, frame⟩

def write (s : SerialLine) (frame : List Byte) : SerialLine :=
  { s with sent := s.sent + 1, line := s.line.send (s.newRequest frame) }

def afterPass (retry : ℕ) (again : ℕ → TransferPoint) : TransferPoint :=
  -- `retry++`, then the test of the loop
  if retry + 1 < 3 then again (retry + 1) else .unlock

/-- `break`, or `while (--retry)`. -/
def afterTry (retry : ℕ) (data : Packet) : ReadPoint :=
  if data.getSize ≠ 0 then .unlock else if retry - 1 = 0 then .unlock else .request (retry - 1)

def packetOf (got : Option (Request × List Byte)) : Packet := ⟨(got.map Prod.snd).getD [], []⟩

def transferReceived (cmd : Packet) (retry : ℕ) (own : Request)
    (got : Option (Request × List Byte)) : TransferPoint :=
  match got with
  | some (source, frame) =>
      if frame ≠ [] then .forward retry own source frame else afterPass retry (.send cmd)
  | none => afterPass retry (.send cmd)

/-- Behind the first read of `RequestCurrentData`: an answer to something else is
read over. -/
def requestReceived (retry : ℕ) (own : Request) (got : Option (Request × List Byte))
    (s : SerialLine) : SerialLine :=
  if (packetOf got).frameCommandType ≠ dataRequest then
    { s with reading := .requestAgain retry own (got.map Prod.fst) }
  else
    { s with
      reading := afterTry retry (packetOf got)
      answered := s.answered ++ [(own, got.map Prod.fst)] }

/-- Behind the second read: what it got, or else what the first one did. -/
def againReceived (retry : ℕ) (own : Request) (first : Option Request)
    (got : Option (Request × List Byte)) (s : SerialLine) : SerialLine :=
  { s with
    reading := afterTry retry (packetOf got)
    answered := s.answered ++ [(own, (got.map Prod.fst).or first)] }

def transferSend (s : SerialLine) : Option SerialLine :=
  match s.transfer with
  | .send cmd retry =>
      some { s.write cmd.strCache with
        transfer := .receive cmd retry (s.newRequest cmd.strCache) }
  | _ => none

def transferReceive (s : SerialLine) : Option SerialLine :=
  match s.transfer, s.line.receive with
  | .receive cmd retry own, some (got, line) =>
      some { s with line := line, transfer := transferReceived cmd retry own got }
  | _, _ => none

def transferForward (s : SerialLine) (ok : Bool) : Option SerialLine :=
  match s.transfer with
  | .forward retry own source answer =>
      if ok then
        some { s with transfer := .unlock, forwarded := s.forwarded ++ [(own, source)] }
      else
        some { s with transfer := afterPass retry fun retry ↦ .forward retry own source answer }
  | _ => none

def readTimer (s : SerialLine) (due : Bool) : Option SerialLine :=
  match s.reading with
  | .requestTimer => some { s with reading := if due then .send .getMPTime else .healthTimer }
  | .healthTimer => some { s with reading := if due then .send .healthCheck else .requestTimer }
  | _ => none

def readSend (machine : Byte) (nStatus : BitVec 32) (flags : Flags) (s : SerialLine) :
    Option SerialLine :=
  match s.reading with
  | .send u =>
      some { s.write (u.frame machine nStatus flags) with
        reading := .receive u (s.newRequest (u.frame machine nStatus flags)) }
  | .request retry =>
      let frame := ((Packet.mk [] []).setCommand (letters 'r' 'a') machine).strCache
      some { s.write frame with reading := .requestReceive retry (s.newRequest frame) }
  | _ => none

def readReceive (s : SerialLine) : Option SerialLine :=
  match s.line.receive with
  | none => none
  | some (got, line) =>
      match s.reading with
      | .receive u own =>
          some { s with
            line := line
            reading := u.next
            answered := s.answered ++ [(own, got.map Prod.fst)] }
      | .requestReceive retry own =>
          some (requestReceived retry own got { s with line := line })
      | .requestAgain retry own first =>
          some (againReceived retry own first got { s with line := line })
      | _ => none

def step (machine : Byte) (s : SerialLine) : SerialEvent → Option SerialLine
  | .answer frame =>
      if isFrameCRCOK frame then (s.line.answer frame).map fun line ↦ { s with line := line }
      else none
  | .transferLock cmd =>
      if s.transfer = .idle ∧ s.lock = none ∧ cmd.strCache ≠ [] then
        some { s with transfer := .send cmd 0, lock := some .control }
      else none
  | .transferSend => s.transferSend
  | .transferReceive => s.transferReceive
  | .transferForward ok => s.transferForward ok
  | .transferUnlock =>
      if s.transfer = .unlock then some { s with transfer := .idle, lock := none } else none
  | .readTimer due => s.readTimer due
  | .readSend nStatus flags => s.readSend machine nStatus flags
  | .readReceive => s.readReceive
  | .readLock =>
      if s.reading = .lock ∧ s.lock = none then
        some { s with reading := .request 3, lock := some .data }
      else none
  | .readUnlock =>
      if s.reading = .unlock then some { s with reading := .healthTimer, lock := none } else none

/-! ## When the exchanges stay apart -/

/-- Every request of the reading thread got its own answer, and every answer sent
on is the answer to the command relayed. -/
structure Matched (s : SerialLine) : Prop where
  answered : ∀ e ∈ s.answered, e.2 = some e.1
  forwarded : ∀ e ∈ s.forwarded, e.2 = e.1

/-- No exchange without the lock begins while `TransferCmd` holds it, and
`TransferCmd` does not take it while such an exchange is under way. -/
def Apart (s : SerialLine) : SerialEvent → Prop
  | .readSend _ _ => s.reading.unlockedSend = true → s.lock ≠ some .control
  | .transferLock _ => s.reading.unlockedWait = false
  | _ => True

instance (s : SerialLine) : ∀ e, Decidable (s.Apart e)
  | .readSend _ _ => inferInstanceAs (Decidable (_ → _))
  | .transferLock _ => inferInstanceAs (Decidable (_ = _))
  | .answer _ => isTrue trivial
  | .transferSend => isTrue trivial
  | .transferReceive => isTrue trivial
  | .transferForward _ => isTrue trivial
  | .transferUnlock => isTrue trivial
  | .readTimer _ => isTrue trivial
  | .readReceive => isTrue trivial
  | .readLock => isTrue trivial
  | .readUnlock => isTrue trivial

/-! ## What holds while they do -/

end SerialLine

def TransferPoint.awaits : TransferPoint → List Request
  | .receive _ _ own => [own]
  | _ => []

def TransferPoint.Own : TransferPoint → Prop
  | .forward _ own source _ => source = own
  | _ => True

namespace ReadPoint

def awaits : ReadPoint → List Request
  | .receive _ own => [own]
  | .requestReceive _ own => [own]
  | _ => []

def locked : ReadPoint → Bool
  | .request _ | .requestReceive _ _ | .requestAgain _ _ _ | .unlock => true
  | _ => false

def Own : ReadPoint → Prop
  | .requestAgain _ own first => first = some own
  | _ => True

theorem unlockedWait_of_awaits {p : ReadPoint} (hawaits : p.awaits ≠ [])
    (hlocked : p.locked = false) : p.unlockedWait = true := by
  cases p <;> simp_all [awaits, locked, unlockedWait]

end ReadPoint

namespace SerialLine

/-- At most one request is outstanding, that of the thread which is about to read
its answer, and `TransferCmd` shares its section with no read. -/
structure Inv (s : SerialLine) : Prop where
  outstanding : s.line.outstanding = s.transfer.awaits ++ s.reading.awaits
  control : s.lock = some .control ↔ s.transfer ≠ .idle
  data : s.lock = some .data ↔ s.reading.locked = true
  apart : s.transfer ≠ .idle → s.reading.awaits = []
  source : s.transfer.Own
  first : s.reading.Own
  matched : Matched s

theorem inv_start : Inv start :=
  ⟨rfl, by decide, by decide, fun h ↦ absurd rfl h, trivial, trivial, ⟨nofun, nofun⟩⟩

/-- `TransferCmd` moves inside its section. -/
theorem Inv.moveTransfer {s : SerialLine} (h : Inv s) (hidle : s.transfer ≠ .idle)
    (t : TransferPoint) (ht : t ≠ .idle) (hown : t.Own) (sent : ℕ)
    (line : Exchange.Line Request (List Byte)) (hline : line.outstanding = t.awaits) :
    Inv { s with line := line, sent := sent, transfer := t } where
  outstanding := by
    rw [hline, h.apart hidle, List.append_nil]
  control := ⟨fun _ ↦ ht, fun _ ↦ h.control.mpr hidle⟩
  data := h.data
  apart := fun _ ↦ h.apart hidle
  source := hown
  first := h.first
  matched := ⟨h.matched.answered, h.matched.forwarded⟩

/-- The reading thread moves without touching the lock; only one whose turn it
is may await an answer. -/
theorem Inv.moveReading {s : SerialLine} (h : Inv s) (p : ReadPoint)
    (hlocked : p.locked = s.reading.locked) (hturn : s.transfer ≠ .idle → p.awaits = [])
    (hown : p.Own) (sent : ℕ) (line : Exchange.Line Request (List Byte))
    (hline : line.outstanding = s.transfer.awaits ++ p.awaits)
    (answered : List (Request × Option Request)) (hanswered : ∀ e ∈ answered, e.2 = some e.1) :
    Inv { s with line := line, sent := sent, reading := p, answered := answered } where
  outstanding := hline
  control := h.control
  data := hlocked ▸ h.data
  apart := hturn
  source := h.source
  first := hown
  matched := ⟨hanswered, h.matched.forwarded⟩

theorem Inv.answered_append {s : SerialLine} (h : Inv s) (own : Request) :
    ∀ e ∈ s.answered ++ [(own, some own)], e.2 = some e.1 := by
  intro e he
  rcases List.mem_append.mp he with he | he
  · exact h.matched.answered e he
  · obtain rfl := List.mem_singleton.mp he
    rfl

theorem Inv.idle_of_awaits {s : SerialLine} (h : Inv s) (hawaits : s.reading.awaits ≠ []) :
    s.transfer = .idle := by
  by_contra hidle
  exact hawaits (h.apart hidle)

theorem Inv.idle_of_locked {s : SerialLine} (h : Inv s) (hlocked : s.reading.locked = true) :
    s.transfer = .idle := by
  by_contra hidle
  have hcontrol := h.control.mpr hidle
  rw [h.data.mpr hlocked] at hcontrol
  cases hcontrol

theorem Inv.of_free {s : SerialLine} (h : Inv s) (hfree : s.lock = none) :
    s.transfer = .idle ∧ s.reading.locked = false := by
  constructor
  · by_contra hidle
    have hcontrol := h.control.mpr hidle
    rw [hfree] at hcontrol
    cases hcontrol
  · by_contra hlocked
    have hdata := h.data.mpr (by simpa using hlocked)
    rw [hfree] at hdata
    cases hdata

theorem Inv.outstanding_transfer {s : SerialLine} (h : Inv s) (hidle : s.transfer ≠ .idle) :
    s.line.outstanding = s.transfer.awaits := by
  rw [h.outstanding, h.apart hidle, List.append_nil]

theorem Inv.outstanding_reading {s : SerialLine} (h : Inv s) (hidle : s.transfer = .idle) :
    s.line.outstanding = s.reading.awaits := by
  rw [h.outstanding, hidle]
  rfl

/-! ### The steps of `TransferCmd` -/

theorem afterPass_cases (retry : ℕ) (again : ℕ → TransferPoint) :
    afterPass retry again = again (retry + 1) ∨ afterPass retry again = .unlock := by
  unfold afterPass
  split_ifs
  · exact Or.inl rfl
  · exact Or.inr rfl

theorem Inv.transferLock {s : SerialLine} (h : Inv s) (cmd : Packet) (hfree : s.lock = none)
    (hwait : s.reading.unlockedWait = false) :
    Inv { s with transfer := .send cmd 0, lock := some .control } := by
  obtain ⟨hidle, hlocked⟩ := h.of_free hfree
  have hawaits : s.reading.awaits = [] := by
    by_contra hawaits
    have hunlocked := ReadPoint.unlockedWait_of_awaits hawaits hlocked
    rw [hwait] at hunlocked
    cases hunlocked
  exact ⟨h.outstanding_reading hidle, by simp, by simp [hlocked], fun _ ↦ hawaits, trivial,
    h.first, ⟨h.matched.answered, h.matched.forwarded⟩⟩

theorem Inv.transferSend {s s' : SerialLine} (h : Inv s) (hstep : s.transferSend = some s') :
    Inv s' := by
  unfold SerialLine.transferSend at hstep
  split at hstep
  · rename_i cmd retry htransfer
    obtain rfl := Option.some.inj hstep
    have hidle : s.transfer ≠ .idle := by simp [htransfer]
    refine h.moveTransfer hidle (.receive cmd retry (s.newRequest cmd.strCache)) (by simp) trivial
      (s.sent + 1) (s.line.send (s.newRequest cmd.strCache)) ?_
    rw [Exchange.Line.outstanding_send, h.outstanding_transfer hidle, htransfer]
    rfl
  · cases hstep

theorem Inv.transferReceive {s s' : SerialLine} (h : Inv s)
    (hstep : s.transferReceive = some s') : Inv s' := by
  unfold SerialLine.transferReceive at hstep
  split at hstep
  · rename_i cmd retry own got line htransfer hreceive
    obtain rfl := Option.some.inj hstep
    have hidle : s.transfer ≠ .idle := by simp [htransfer]
    have hone : s.line.outstanding = [own] := by
      rw [h.outstanding_transfer hidle, htransfer]
      rfl
    obtain ⟨frame, hgot, hempty⟩ := Exchange.Line.receive_own hone hreceive
    simp only at hgot hempty
    subst hgot
    by_cases hframe : frame = []
    · have hagain : transferReceived cmd retry own (some (own, frame)) =
          afterPass retry (.send cmd) := by
        simp [transferReceived, hframe]
      rw [hagain]
      rcases afterPass_cases retry (.send cmd) with hpass | hpass <;> rw [hpass]
      · exact h.moveTransfer hidle (.send cmd (retry + 1)) (by simp) trivial s.sent line hempty
      · exact h.moveTransfer hidle .unlock (by simp) trivial s.sent line hempty
    · have hforward : transferReceived cmd retry own (some (own, frame)) =
          .forward retry own own frame := by
        simp [transferReceived, hframe]
      rw [hforward]
      exact h.moveTransfer hidle (.forward retry own own frame) (by simp) rfl s.sent line hempty
  · cases hstep

theorem Inv.transferForward {s s' : SerialLine} {ok : Bool} (h : Inv s)
    (hstep : s.transferForward ok = some s') : Inv s' := by
  unfold SerialLine.transferForward at hstep
  split at hstep
  · rename_i retry own source answer htransfer
    have hidle : s.transfer ≠ .idle := by simp [htransfer]
    have hsource : source = own := by
      have hown := h.source
      rwa [htransfer] at hown
    have hline : s.line.outstanding = [] := by
      rw [h.outstanding_transfer hidle, htransfer]
      rfl
    cases ok with
    | true =>
        obtain rfl := Option.some.inj hstep
        have hmoved := h.moveTransfer hidle .unlock (by simp) trivial s.sent s.line hline
        refine ⟨hmoved.outstanding, hmoved.control, hmoved.data, hmoved.apart, trivial,
          hmoved.first, ⟨h.matched.answered, ?_⟩⟩
        intro e he
        rcases List.mem_append.mp he with he | he
        · exact h.matched.forwarded e he
        · obtain rfl := List.mem_singleton.mp he
          exact hsource
    | false =>
        obtain rfl := Option.some.inj hstep
        rcases afterPass_cases retry (fun retry ↦ .forward retry own source answer) with
          hpass | hpass <;> rw [hpass]
        · exact h.moveTransfer hidle (.forward (retry + 1) own source answer) (by simp) hsource
            s.sent s.line hline
        · exact h.moveTransfer hidle .unlock (by simp) trivial s.sent s.line hline
  · cases hstep

theorem Inv.transferUnlock {s : SerialLine} (h : Inv s) (hunlock : s.transfer = .unlock) :
    Inv { s with transfer := .idle, lock := none } := by
  have hidle : s.transfer ≠ .idle := by simp [hunlock]
  have hlocked : s.reading.locked ≠ true := fun hlocked ↦ hidle (h.idle_of_locked hlocked)
  refine ⟨?_, by simp, by simpa using hlocked, fun hne ↦ absurd rfl hne, trivial, h.first,
    ⟨h.matched.answered, h.matched.forwarded⟩⟩
  rw [h.outstanding, hunlock]
  rfl

/-! ### The steps of the reading thread -/

theorem afterTry_cases (retry : ℕ) (data : Packet) :
    afterTry retry data = .unlock ∨ afterTry retry data = .request (retry - 1) := by
  unfold afterTry
  split_ifs
  · exact Or.inl rfl
  · exact Or.inl rfl
  · exact Or.inr rfl

theorem Inv.readTimer {s s' : SerialLine} {due : Bool} (h : Inv s)
    (hstep : s.readTimer due = some s') : Inv s' := by
  have hmove : ∀ p : ReadPoint, p.locked = s.reading.locked → p.awaits = s.reading.awaits →
      p.Own → Inv { s with reading := p } := by
    intro p hlocked hawaits hown
    refine h.moveReading p hlocked (fun hidle ↦ hawaits.trans (h.apart hidle)) hown s.sent s.line
      ?_ s.answered h.matched.answered
    rw [hawaits]
    exact h.outstanding
  unfold SerialLine.readTimer at hstep
  split at hstep
  · rename_i hreading
    obtain rfl := Option.some.inj hstep
    rw [hreading] at hmove
    cases due <;> exact hmove _ rfl rfl trivial
  · rename_i hreading
    obtain rfl := Option.some.inj hstep
    rw [hreading] at hmove
    cases due <;> exact hmove _ rfl rfl trivial
  · cases hstep

theorem Inv.writeReading {s : SerialLine} (h : Inv s) (hidle : s.transfer = .idle)
    (hnone : s.reading.awaits = []) (frame : List Byte) (p : ReadPoint)
    (hlocked : p.locked = s.reading.locked) (hawaits : p.awaits = [s.newRequest frame])
    (hown : p.Own) : Inv { s.write frame with reading := p } := by
  refine h.moveReading p hlocked (fun hne ↦ absurd hidle hne) hown (s.sent + 1)
    (s.line.send (s.newRequest frame)) ?_ s.answered h.matched.answered
  rw [Exchange.Line.outstanding_send, h.outstanding, hnone, hawaits, List.append_nil]

theorem Inv.readSend {s s' : SerialLine} {machine : Byte} {nStatus : BitVec 32} {flags : Flags}
    (h : Inv s) (hguard : s.reading.unlockedSend = true → s.lock ≠ some .control)
    (hstep : s.readSend machine nStatus flags = some s') : Inv s' := by
  unfold SerialLine.readSend at hstep
  split at hstep
  · rename_i u hreading
    obtain rfl := Option.some.inj hstep
    have hidle : s.transfer = .idle := by
      by_contra hidle
      exact hguard (by simp [hreading, ReadPoint.unlockedSend]) (h.control.mpr hidle)
    exact h.writeReading hidle (by simp [hreading, ReadPoint.awaits]) _
      (.receive u (s.newRequest (u.frame machine nStatus flags)))
      (by simp [hreading, ReadPoint.locked]) rfl trivial
  · rename_i retry hreading
    obtain rfl := Option.some.inj hstep
    have hidle := h.idle_of_locked (by simp [hreading, ReadPoint.locked])
    exact h.writeReading hidle (by simp [hreading, ReadPoint.awaits]) _
      (.requestReceive retry (s.newRequest _)) (by simp [hreading, ReadPoint.locked]) rfl trivial
  · cases hstep

theorem Inv.settleReading {s : SerialLine} (h : Inv s) (hidle : s.transfer = .idle)
    (line : Exchange.Line Request (List Byte)) (hline : line.outstanding = []) (p : ReadPoint)
    (hlocked : p.locked = s.reading.locked) (hawaits : p.awaits = []) (hown : p.Own)
    (answered : List (Request × Option Request)) (hanswered : ∀ e ∈ answered, e.2 = some e.1) :
    Inv { s with line := line, reading := p, answered := answered } := by
  refine h.moveReading p hlocked (fun _ ↦ hawaits) hown s.sent line ?_ answered hanswered
  rw [hline, hawaits, hidle]
  rfl

theorem Inv.settleTry {s : SerialLine} (h : Inv s) (hlocked : s.reading.locked = true)
    (line : Exchange.Line Request (List Byte)) (hline : line.outstanding = []) (retry : ℕ)
    (data : Packet) (own : Request) :
    Inv { s with
      line := line
      reading := afterTry retry data
      answered := s.answered ++ [(own, some own)] } := by
  have hidle := h.idle_of_locked hlocked
  rcases afterTry_cases retry data with htry | htry <;> rw [htry]
  · exact h.settleReading hidle line hline .unlock hlocked.symm rfl trivial _
      (h.answered_append own)
  · exact h.settleReading hidle line hline (.request (retry - 1)) hlocked.symm rfl trivial _
      (h.answered_append own)

theorem Inv.readReceive {s s' : SerialLine} (h : Inv s) (hstep : s.readReceive = some s') :
    Inv s' := by
  unfold SerialLine.readReceive at hstep
  split at hstep
  · cases hstep
  · rename_i got line hreceive
    split at hstep
    · rename_i u own hreading
      obtain rfl := Option.some.inj hstep
      have hidle := h.idle_of_awaits (by simp [hreading, ReadPoint.awaits])
      have hone : s.line.outstanding = [own] := by
        rw [h.outstanding_reading hidle, hreading]
        rfl
      obtain ⟨frame, hgot, hempty⟩ := Exchange.Line.receive_own hone hreceive
      simp only at hgot hempty
      subst hgot
      have hnext : u.next.locked = s.reading.locked ∧ u.next.awaits = [] ∧ u.next.Own := by
        rw [hreading]
        cases u <;> exact ⟨rfl, rfl, trivial⟩
      exact h.settleReading hidle line hempty u.next hnext.1 hnext.2.1 hnext.2.2 _
        (h.answered_append own)
    · rename_i retry own hreading
      obtain rfl := Option.some.inj hstep
      have hlocked : s.reading.locked = true := by simp [hreading, ReadPoint.locked]
      have hidle := h.idle_of_locked hlocked
      have hone : s.line.outstanding = [own] := by
        rw [h.outstanding_reading hidle, hreading]
        rfl
      obtain ⟨frame, hgot, hempty⟩ := Exchange.Line.receive_own hone hreceive
      simp only at hgot hempty
      subst hgot
      unfold requestReceived
      split_ifs
      · exact h.settleReading hidle line hempty (.requestAgain retry own (some own))
          hlocked.symm rfl rfl _ h.matched.answered
      · exact h.settleTry hlocked line hempty retry _ own
    · -- the answer is already there, so the second read finds nothing
      rename_i retry own first hreading
      obtain rfl := Option.some.inj hstep
      have hlocked : s.reading.locked = true := by simp [hreading, ReadPoint.locked]
      have hidle := h.idle_of_locked hlocked
      have hnone : s.line.outstanding = [] := by
        rw [h.outstanding_reading hidle, hreading]
        rfl
      have hfirst : first = some own := by
        have hown := h.first
        rwa [hreading] at hown
      obtain ⟨rfl, rfl⟩ := Prod.mk.inj (Exchange.Line.receive_nothing hnone hreceive)
      rw [hfirst]
      exact h.settleTry hlocked s.line hnone retry _ own
    · cases hstep

theorem Inv.readLock {s : SerialLine} (h : Inv s) (hreading : s.reading = .lock)
    (hfree : s.lock = none) : Inv { s with reading := .request 3, lock := some .data } := by
  obtain ⟨hidle, -⟩ := h.of_free hfree
  refine ⟨?_, by simp [hidle], by simp [ReadPoint.locked], fun hne ↦ absurd hidle hne, h.source,
    trivial, ⟨h.matched.answered, h.matched.forwarded⟩⟩
  rw [h.outstanding, hreading]
  rfl

theorem Inv.readUnlock {s : SerialLine} (h : Inv s) (hreading : s.reading = .unlock) :
    Inv { s with reading := .healthTimer, lock := none } := by
  have hidle := h.idle_of_locked (by simp [hreading, ReadPoint.locked])
  refine ⟨?_, by simp [hidle], by simp [ReadPoint.locked], fun hne ↦ absurd hidle hne, h.source,
    trivial, ⟨h.matched.answered, h.matched.forwarded⟩⟩
  rw [h.outstanding, hreading]
  rfl

/-! ### Every step -/

theorem Inv.step {machine : Byte} {s s' : SerialLine} {e : SerialEvent} (h : Inv s)
    (hapart : s.Apart e) (hstep : s.step machine e = some s') : Inv s' := by
  cases e with
  | answer frame =>
      simp only [SerialLine.step] at hstep
      split_ifs at hstep
      obtain ⟨line, hanswer, rfl⟩ := Option.map_eq_some_iff.mp hstep
      exact ⟨(Exchange.Line.outstanding_answer hanswer).trans h.outstanding, h.control, h.data,
        h.apart, h.source, h.first, ⟨h.matched.answered, h.matched.forwarded⟩⟩
  | transferLock cmd =>
      simp only [SerialLine.step] at hstep
      split_ifs at hstep with hfree
      obtain rfl := Option.some.inj hstep
      exact h.transferLock cmd hfree.2.1 hapart
  | transferSend => exact h.transferSend hstep
  | transferReceive => exact h.transferReceive hstep
  | transferForward ok => exact h.transferForward hstep
  | transferUnlock =>
      simp only [SerialLine.step] at hstep
      split_ifs at hstep with hunlock
      obtain rfl := Option.some.inj hstep
      exact h.transferUnlock hunlock
  | readTimer due => exact h.readTimer hstep
  | readSend nStatus flags => exact h.readSend hapart hstep
  | readReceive => exact h.readReceive hstep
  | readLock =>
      simp only [SerialLine.step] at hstep
      split_ifs at hstep with hfree
      obtain rfl := Option.some.inj hstep
      exact h.readLock hfree.1 hfree.2
  | readUnlock =>
      simp only [SerialLine.step] at hstep
      split_ifs at hstep with hunlock
      obtain rfl := Option.some.inj hstep
      exact h.readUnlock hunlock

/-- As long as the exchanges stay apart, every request gets its own answer. -/
theorem requests_do_not_mix (machine : Byte) (s : SerialLine)
    (hreach : Transition.Reaches (step machine) Apart start s) : Matched s :=
  (hreach.invariant Inv (fun _ _ _ h hapart hstep ↦ h.step hapart hstep) inv_start).matched

def frameOf (first second : Char) : Packet :=
  (Packet.mk [] []).setCommand (letters first second) 0x01

def inTurn : List SerialEvent :=
  [.transferLock (frameOf 'c' 'b'), .transferSend, .answer (frameOf 'c' 'b').strCache,
    .transferReceive, .transferForward true, .transferUnlock, .readTimer true,
    .readSend 0 ⟨false, false⟩, .answer (frameOf 'c' 'k').strCache, .readReceive]

theorem requests_do_not_mix_in_turn :
    ∃ s, Transition.run (step 0x01) inTurn start = some s ∧
      (s.answered.length = 1 ∧ s.forwarded.length = 1) ∧ Matched s := by
  obtain ⟨s, hrun, hdone⟩ := Transition.exists_run (step 0x01) inTurn start
    (fun s ↦ s.answered.length = 1 ∧ s.forwarded.length = 1) (by decide +kernel)
  exact ⟨s, hrun, hdone, requests_do_not_mix 0x01 s (.of_run (by decide +kernel) hrun)⟩

/-- The reading thread asks for the time while a command is being relayed. -/
def crossed : List SerialEvent :=
  [.transferLock (frameOf 'c' 'b'), .transferSend, .readTimer true, .readSend 0 ⟨false, false⟩,
    .answer (frameOf 'c' 'b').strCache, .answer (frameOf 'c' 'k').strCache, .readReceive,
    .transferReceive, .transferForward true]

/-- Request 0 is the command and request 1 the question for the time: each
thread gets the answer to the other one, and the server gets the time. -/
theorem answers_exchanged :
    (Transition.run (step 0x01) crossed start).map (fun s ↦
        (s.answered.map fun e ↦ (e.1.no, e.2.map Request.no),
          s.forwarded.map fun e ↦ (e.1.no, e.2.no))) =
      some ([(1, some 0)], [(0, 1)]) := by
  decide +kernel

/-! ## The bytes on the line -/

def onWire (line : Exchange.Line Request (List Byte)) : List ReadResult :=
  line.answered.flatMap fun e ↦ e.2.map ReadResult.byte

/-- Taking the oldest answer is what the receiver does with the bytes. -/
theorem receive_onWire {line line' : Exchange.Line Request (List Byte)} {source : Request}
    {frame : List Byte} (hreceive : line.receive = some (some (source, frame), line'))
    (hframe : Packet.WireFrame frame) (p : Packet) (input : List ReadResult) :
    (p.receiveFrameFrom (onWire line ++ input)).thrown = none ∧
      (p.receiveFrameFrom (onWire line ++ input)).packet.strCache = frame ∧
        (p.receiveFrameFrom (onWire line ++ input)).rest = onWire line' ++ input := by
  rcases line with ⟨pending, answered⟩
  cases answered with
  | nil => cases pending <;> simp [Exchange.Line.receive] at hreceive
  | cons e rest =>
      obtain ⟨rfl, rfl⟩ : e = (source, frame) ∧ Exchange.Line.mk pending rest = line' := by
        simpa [Exchange.Line.receive] using hreceive
      have hhead := Packet.receiveFrameFrom_wireFrame p (List.not_mem_nil) hframe
        (onWire ⟨pending, rest⟩ ++ input)
      simpa [onWire] using hhead

end SerialLine

end DeviceAgent
