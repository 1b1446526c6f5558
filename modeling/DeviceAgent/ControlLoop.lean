import DeviceAgent.FrameReception
import DeviceAgent.Foundations.Transition

/-!
# The control loop

`ControlTask::doProcess` receives every command into the same `CmdPacket` and
asks it for its type.  `CommandType` has no length check, unlike
`FrameCommandType`, so after a read that timed out it finds what an earlier
command left in the storage.
-/

namespace DeviceAgent

open CommunicationCommand ReadResult

/-! ## Relaying a command to the device -/

structure Flags where
  bInCommunicationError : Bool
  bExtCommunicationError : Bool
  deriving DecidableEq, Repr

/-- What one pass of `TransferCmd` meets: the bytes of the device before it falls
silent, and the exception of the port when the answer is sent on, if any. -/
structure TransferInput where
  dev : List Byte
  sendTo : Option ChannelException
  deriving DecidableEq, Repr

structure Transfer where
  toDevice : List (List Byte)
  toServer : List (List Byte)
  answer : Packet
  retry : ℕ
  deriving DecidableEq, Repr

/-- `SerialPort::Write` leaves the line alone when there is nothing to write. -/
def serialWrite (bytes : List Byte) : List (List Byte) := if bytes = [] then [] else [bytes]

/-- The loop of `TransferCmd` with the passes it may still make.  Each pass leaves
the loop or counts `retry` up. -/
def transferLoop (cmd : Packet) : ℕ → List TransferInput → Transfer → Transfer
  | 0, _, t => t
  | passes + 1, inputs, t =>
      let i := inputs.headD ⟨[], none⟩
      let t :=
        if t.answer.getSize = 0 then
          { t with
            toDevice := t.toDevice ++ serialWrite cmd.strCache
            answer := (t.answer.receiveFrameFrom (i.dev.map byte ++ [zero])).packet }
        else t
      if t.answer.getSize = 0 then
        transferLoop cmd passes inputs.tail { t with retry := t.retry + 1 }
      else
        match i.sendTo with
        | none => { t with toServer := t.toServer ++ [t.answer.strCache], retry := 0 }
        | some _ => transferLoop cmd passes inputs.tail { t with retry := t.retry + 1 }

def transferCmd (cmd : Packet) (inputs : List TransferInput) (flags : Flags) : Transfer × Flags :=
  let t := transferLoop cmd 3 inputs ⟨[], [], ⟨[], []⟩, 0⟩
  if t.answer.getSize = 0 then (t, { flags with bInCommunicationError := true })
  else if t.retry = 3 then (t, { flags with bExtCommunicationError := true })
  else (t, ⟨false, false⟩)

/-! ## One iteration -/

inductive Handler
  | transferCmd
  | historyDataTransfer
  | nothing
  deriving DecidableEq, Repr

/-- The `switch` of `doProcess`. -/
def handlerOf : CommunicationCommand → Handler
  | getCondition | setCondition | getPreAmp | getADCSetting | getSpectrumSetting
  | setLowHiDoesRateAlarmReset | getTime | requestDoseRate | requestSpectrum
  | requestDoseRateAlarm | request40KAction | requestGPS | setTime => .transferCmd
  | confirmDoseRate | confirmSpectrum | confirmDoseRateAlarm | confirm40KAction
  | confirmGPS => .historyDataTransfer
  | dataRequest | mpHealthCheck | getNetworkSetting | setTransmitUnitHardwareReset
  | setTransmitUnitReset | setTransmitUnitMemortClear | requestDataCancel | dataTerminate
  | setDataPort | setControlPort | controlPortHealthCheck | cmdEnd => .nothing

structure Call where
  handler : Handler
  command : CommunicationCommand
  frame : List Byte
  deriving DecidableEq, Repr

/-- What the outside does during one iteration. -/
structure ControlInput where
  /-- `PowerOn` succeeds, if it is tried. -/
  poweredOn : Bool
  stream : List ReadResult
  transfer : List TransferInput
  /-- What `HistoryDataTransfer` writes to the device, and how it ends. -/
  history : List (List Byte) × Option ChannelException
  unReachable : Bool
  /-- `NegoiateControlChannel` succeeds, if it is tried. -/
  negotiated : Bool
  timeForSleep : Bool
  deriving DecidableEq, Repr

/-- What the command part of an iteration did: the packet `GetCommand` came back
with, its answer, the calls made, the writes to the device, and the flags when
the read began and at the end. -/
structure Record where
  received : Option Packet
  eCmd : Option CommunicationCommand
  calls : List Call
  toDevice : List (List Byte)
  before : Flags
  after : Flags
  deriving DecidableEq, Repr

structure Control where
  cmd : Packet
  flags : Flags
  bPowerOff : Bool
  log : List Record
  deriving DecidableEq, Repr

namespace Control

def powerPhase (i : ControlInput) (s : Control) : Control :=
  if s.bPowerOff then
    { s with
      bPowerOff := !i.poweredOn
      flags := { s.flags with bExtCommunicationError := !i.poweredOn } }
  else s

def onException (i : ControlInput) (e : ChannelException) (s : Control) : Control :=
  let s := if i.unReachable then { s with bPowerOff := true } else s
  if e.bUnConnected then
    { s with flags := { s.flags with bExtCommunicationError := !i.negotiated } }
  else s

/-- The packet as `GetCommand` leaves it. -/
def getCommand (i : ControlInput) (s : Control) : Received := s.cmd.receiveFrameFrom i.stream

/-- The call the `switch` makes for this command, with the flags, the writes to
the device and the exception it ends with. -/
def execute (i : ControlInput) (cmd : Packet) (flags : Flags) :
    Flags × List Call × List (List Byte) × Option ChannelException :=
  let eCmd := cmd.commandType
  match handlerOf eCmd with
  | .transferCmd =>
      let t := transferCmd cmd i.transfer flags
      (t.2, [⟨.transferCmd, eCmd, cmd.strCache⟩], t.1.toDevice, none)
  | .historyDataTransfer =>
      (flags, [⟨.historyDataTransfer, eCmd, cmd.strCache⟩], i.history.1, i.history.2)
  | .nothing => (flags, [], [], none)

def commandPhase (i : ControlInput) (s : Control) : Control :=
  if s.bPowerOff then s
  else
    let r := s.getCommand i
    match r.thrown with
    | some e =>
        let s' := onException i e { s with cmd := r.packet }
        { s' with log := s.log ++ [⟨none, none, [], [], s.flags, s'.flags⟩] }
    | none =>
        let x := execute i r.packet s.flags
        let s' := { s with cmd := r.packet, flags := x.1 }
        let s' :=
          match x.2.2.2 with
          | none => s'
          | some e => onException i e s'
        { s' with
          log := s.log ++
            [⟨some r.packet, some r.packet.commandType, x.2.1, x.2.2.1, s.flags, s'.flags⟩] }

def sleepPhase (i : ControlInput) (s : Control) : Control :=
  if i.timeForSleep then { s with bPowerOff := true } else s

def step (s : Control) (i : ControlInput) : Option Control :=
  some (sleepPhase i (commandPhase i (powerPhase i s)))

end Control

/-- No command without a frame: every call is for the command of a valid frame
received in this iteration, and an iteration that received nothing does
nothing. -/
def Record.Proper (r : Record) : Prop :=
  (∀ call ∈ r.calls, ∃ packet, r.received = some packet ∧
    isFrameCRCOK packet.strCache = true ∧ call.command = packet.frameCommandType ∧
    call.frame = packet.strCache) ∧
  ∀ packet, r.received = some packet → packet.strCache = [] →
    r.eCmd = some cmdEnd ∧ r.calls = [] ∧ r.toDevice = [] ∧ r.after = r.before

namespace Control

/-- If the read of this iteration brings nothing, the storage holds no command
word where a frame would have it. -/
def NoResidue (s : Control) (i : ControlInput) : Prop :=
  (powerPhase i s).bPowerOff = false → (s.getCommand i).thrown = none →
    (s.getCommand i).packet.strCache = [] →
    ∀ entry ∈ cmdWord, entry.2 ≠ (s.getCommand i).packet.cmdField

instance (s : Control) (i : ControlInput) : Decidable (s.NoResidue i) :=
  inferInstanceAs (Decidable (_ → _ → _ → ∀ entry ∈ cmdWord, _ ≠ _))

end Control

/-- The two decoders agree unless a short packet has a command word in its
storage. -/
theorem commandType_eq_iff (p : Packet) :
    p.commandType = p.frameCommandType ↔
      4 < p.getSize ∨ ∀ entry ∈ cmdWord, entry.2 ≠ p.cmdField := by
  rw [Packet.commandType, Packet.frameCommandType, ← commandOf_eq_cmdEnd_iff]
  by_cases hsize : 4 < p.getSize
  · simp [hsize]
  · simp [hsize]

theorem commandType_of_isFrameCRCOK {p : Packet} (h : isFrameCRCOK p.strCache = true) :
    p.commandType = p.frameCommandType := by
  have hlen := length_ge_of_isFrameCRCOK h
  refine (commandType_eq_iff p).mpr (Or.inl ?_)
  rw [Packet.getSize]
  omega

namespace Control

variable {s : Control} {i : ControlInput}

theorem execute_calls {cmd : Packet} {flags : Flags} {call : Call}
    (hcall : call ∈ (execute i cmd flags).2.1) :
    call.command = cmd.commandType ∧ call.frame = cmd.strCache := by
  unfold execute at hcall
  dsimp only at hcall
  split at hcall
  · rw [List.mem_singleton.mp hcall]
    exact ⟨rfl, rfl⟩
  · rw [List.mem_singleton.mp hcall]
    exact ⟨rfl, rfl⟩
  · simp at hcall

theorem execute_of_cmdEnd {cmd : Packet} (h : cmd.commandType = cmdEnd) (flags : Flags) :
    execute i cmd flags = (flags, [], [], none) := by
  simp [execute, h, handlerOf]

theorem powerPhase_cmd (i : ControlInput) (s : Control) : (powerPhase i s).cmd = s.cmd := by
  unfold powerPhase
  split <;> rfl

theorem powerPhase_log (i : ControlInput) (s : Control) : (powerPhase i s).log = s.log := by
  unfold powerPhase
  split <;> rfl

theorem sleepPhase_log (i : ControlInput) (s : Control) : (sleepPhase i s).log = s.log := by
  unfold sleepPhase
  split <;> rfl

theorem proper_iff {packet : Packet} {before after : Flags}
    (hpacket : packet.strCache = [] ∨ isFrameCRCOK packet.strCache = true)
    (hafter : (execute i packet before).2.2.2 = none → after = (execute i packet before).1) :
    Record.Proper ⟨some packet, some packet.commandType, (execute i packet before).2.1,
        (execute i packet before).2.2.1, before, after⟩ ↔
      (packet.strCache = [] → ∀ entry ∈ cmdWord, entry.2 ≠ packet.cmdField) := by
  rcases hpacket with hempty | hok
  · rw [← commandOf_eq_cmdEnd_iff]
    constructor
    · rintro ⟨-, hquiet⟩ -
      exact Option.some.inj (hquiet packet rfl hempty).1
    · intro hend
      have hexecute : execute i packet before = (before, [], [], none) :=
        execute_of_cmdEnd (hend hempty) before
      rw [hexecute] at hafter ⊢
      refine ⟨by simp, fun packet' hpacket' _ ↦ ?_⟩
      obtain rfl := Option.some.inj hpacket'
      exact ⟨congrArg some (hend hempty), rfl, rfl, hafter rfl⟩
  · have hne := ne_nil_of_isFrameCRCOK hok
    refine iff_of_true ⟨fun call hcall ↦ ?_, fun packet' hpacket' hempty ↦ ?_⟩ fun h ↦ absurd h hne
    · obtain ⟨hcommand, hframe⟩ := execute_calls hcall
      exact ⟨packet, rfl, hok, hcommand.trans (commandType_of_isFrameCRCOK hok), hframe⟩
    · obtain rfl := Option.some.inj hpacket'
      exact absurd hempty hne

theorem commandPhase_record (hpower : s.bPowerOff = false) :
    ∃ r : Record, (commandPhase i s).log = s.log ++ [r] ∧
      (r.Proper ↔ ((s.getCommand i).thrown = none → (s.getCommand i).packet.strCache = [] →
        ∀ entry ∈ cmdWord, entry.2 ≠ (s.getCommand i).packet.cmdField)) := by
  cases hthrown : (s.getCommand i).thrown with
  | some e =>
      refine ⟨⟨none, none, [], [], s.flags, (commandPhase i s).flags⟩, ?_,
        iff_of_true ⟨by simp, by simp⟩ (by simp)⟩
      simp only [commandPhase, hpower, hthrown, Bool.false_eq_true, if_false]
  | none =>
      have hpacket : (s.getCommand i).packet.strCache = [] ∨
          isFrameCRCOK (s.getCommand i).packet.strCache = true :=
        Packet.receiveFrameFrom_complete s.cmd i.stream hthrown
      refine ⟨⟨some (s.getCommand i).packet, some (s.getCommand i).packet.commandType,
        (execute i (s.getCommand i).packet s.flags).2.1,
        (execute i (s.getCommand i).packet s.flags).2.2.1, s.flags, (commandPhase i s).flags⟩,
        ?_, ?_⟩
      · simp only [commandPhase, hpower, hthrown, Bool.false_eq_true, if_false]
      · rw [proper_iff hpacket]
        · simp
        · intro hreturned
          simp only [commandPhase, hpower, hthrown, hreturned, Bool.false_eq_true, if_false]

theorem step_record {s' : Control} (hstep : s.step i = some s') :
    (s'.log = s.log ∧ s.NoResidue i) ∨
      ∃ r : Record, s'.log = s.log ++ [r] ∧ (r.Proper ↔ s.NoResidue i) := by
  obtain rfl := Option.some.inj hstep
  have hget : (powerPhase i s).getCommand i = s.getCommand i := by
    rw [getCommand, getCommand, powerPhase_cmd]
  rw [sleepPhase_log]
  cases hpower : (powerPhase i s).bPowerOff with
  | true =>
      refine Or.inl ⟨?_, fun hon ↦ ?_⟩
      · simp [commandPhase, hpower, powerPhase_log]
      · rw [hpower] at hon
        cases hon
  | false =>
      obtain ⟨r, hlog, hproper⟩ := commandPhase_record (i := i) hpower
      refine Or.inr ⟨r, by rw [hlog, powerPhase_log], ?_⟩
      rw [hproper, hget, NoResidue, hpower]
      simp

theorem getCommand_silent {noise : List Byte} (hnoise : SOH ∉ noise)
    (hstream : i.stream = noise.map byte ++ [zero]) : s.getCommand i = ⟨s.cmd.clear, [], none⟩ := by
  rw [getCommand, hstream, Packet.receiveFrameFrom, Packet.scanFrame_noise _ _ hnoise]
  rfl

/-- On a silent line the condition is about the packet the iteration begins with:
clearing it leaves the command field in place. -/
theorem noResidue_silent_iff {noise : List Byte} (hnoise : SOH ∉ noise)
    (hstream : i.stream = noise.map byte ++ [zero]) :
    s.NoResidue i ↔ (powerPhase i s).bPowerOff = true ∨
      ∀ entry ∈ cmdWord, entry.2 ≠ s.cmd.cmdField := by
  have hfield : s.cmd.clear.cmdField = s.cmd.cmdField := by
    rw [Packet.cmdField, Packet.cmdField, Packet.byteAt_clear _ (by omega),
      Packet.byteAt_clear _ (by omega)]
  rw [NoResidue, getCommand_silent hnoise hstream, hfield]
  cases (powerPhase i s).bPowerOff <;> simp

/-- In every run whose quiet iterations find no command word in the storage all
iterations are proper, and the first that does find one is not.  On a silent line
that is what the previous command left there.  The two decoders differ on just
such packets. -/
theorem commands_need_frames (cmd : Packet) (flags : Flags) (bPowerOff : Bool) :
    (∀ s, Transition.Reaches step NoResidue ⟨cmd, flags, bPowerOff, []⟩ s →
      ∀ r ∈ s.log, r.Proper) ∧
    (∀ s i s', Transition.Reaches step NoResidue ⟨cmd, flags, bPowerOff, []⟩ s →
      s.step i = some s' → ((∀ r ∈ s'.log, r.Proper) ↔ s.NoResidue i)) ∧
    (∀ (s : Control) (i : ControlInput) (noise : List Byte), SOH ∉ noise →
      i.stream = noise.map byte ++ [zero] →
      (s.NoResidue i ↔ (powerPhase i s).bPowerOff = true ∨
        ∀ entry ∈ cmdWord, entry.2 ≠ s.cmd.cmdField)) ∧
    ∀ p : Packet, p.commandType = p.frameCommandType ↔
      4 < p.getSize ∨ ∀ entry ∈ cmdWord, entry.2 ≠ p.cmdField := by
  have hiff : ∀ (s : Control) (i : ControlInput) (s' : Control), (∀ r ∈ s.log, r.Proper) →
      s.step i = some s' → ((∀ r ∈ s'.log, r.Proper) ↔ s.NoResidue i) := by
    intro s i s' hs hstep
    rcases step_record hstep with ⟨hlog, hclear⟩ | ⟨r, hlog, hproper⟩
    · rw [hlog]
      exact iff_of_true hs hclear
    · rw [hlog, ← hproper]
      constructor
      · exact fun hall ↦ hall r (by simp)
      · intro hr r' hr'
        rcases List.mem_append.mp hr' with hold | hnew
        · exact hs r' hold
        · rw [List.mem_singleton.mp hnew]
          exact hr
  have hrun : ∀ s, Transition.Reaches step NoResidue ⟨cmd, flags, bPowerOff, []⟩ s →
      ∀ r ∈ s.log, r.Proper := by
    intro s hreach
    refine hreach.invariant (fun s ↦ ∀ r ∈ s.log, r.Proper) ?_ (by simp)
    exact fun s i s' hs hclear hstep ↦ (hiff s i s' hs hstep).mpr hclear
  exact ⟨hrun, fun s i s' hreach hstep ↦ hiff s i s' (hrun s hreach) hstep,
    fun _ _ _ hnoise hstream ↦ noResidue_silent_iff hnoise hstream, commandType_eq_iff⟩

/-- An iteration in which the server sends these bytes and the device answers
with these. -/
def iteration (stream dev : List Byte) : ControlInput where
  poweredOn := true
  stream := stream.map byte ++ [zero]
  transfer := [⟨dev, none⟩]
  history := ([], none)
  unReachable := false
  negotiated := true
  timeForSleep := false

/-- The frame of a command without further content. -/
def commandFrame (first second : Char) : List Byte :=
  ((Packet.mk [] []).buildPacket [(letters first second).1, (letters first second).2]
    0x01#8).strCache

theorem commands_need_frames_once :
    ∃ s, Transition.run step [iteration (commandFrame 'c' 'a') (commandFrame 'c' 'a')]
        ⟨⟨[], []⟩, ⟨false, false⟩, true, []⟩ = some s ∧
      s.log.map (fun r ↦ r.calls.map Call.command) = [[getCondition]] ∧ ∀ r ∈ s.log, r.Proper := by
  have hmeets : Transition.Meets step NoResidue
      [iteration (commandFrame 'c' 'a') (commandFrame 'c' 'a')]
      ⟨⟨[], []⟩, ⟨false, false⟩, true, []⟩ := by
    decide
  obtain ⟨s, hrun, hcalls⟩ := Transition.exists_run step
    [iteration (commandFrame 'c' 'a') (commandFrame 'c' 'a')] ⟨⟨[], []⟩, ⟨false, false⟩, true, []⟩
    (fun s ↦ s.log.map (fun r ↦ r.calls.map Call.command) = [[getCondition]]) (by decide)
  exact ⟨s, hrun, hcalls, (commands_need_frames _ _ _).1 s (.of_run hmeets hrun)⟩

/-- A condition is requested and answered; then the line is quiet.  The second
iteration relays the command again, finds no answer and reports a fault. -/
theorem command_without_frame :
    ∃ s, Transition.run step
        [iteration (commandFrame 'c' 'a') (commandFrame 'c' 'a'), iteration [] []]
        ⟨⟨[], []⟩, ⟨false, false⟩, true, []⟩ = some s ∧
      s.log.map (fun r ↦ r.calls.map Call.command) = [[getCondition], [getCondition]] ∧
      s.flags = ⟨true, false⟩ ∧
      (∃ r ∈ s.log, r.received.map Packet.strCache = some [] ∧ r.calls ≠ []) ∧
      ¬ ∀ r ∈ s.log, r.Proper := by
  obtain ⟨s, hrun, hcalls, hflags, hbad⟩ := Transition.exists_run step
    [iteration (commandFrame 'c' 'a') (commandFrame 'c' 'a'), iteration [] []]
    ⟨⟨[], []⟩, ⟨false, false⟩, true, []⟩
    (fun s ↦ s.log.map (fun r ↦ r.calls.map Call.command) = [[getCondition], [getCondition]] ∧
      s.flags = ⟨true, false⟩ ∧
      ∃ r ∈ s.log, r.received.map Packet.strCache = some [] ∧ r.calls ≠ [])
    (by decide)
  refine ⟨s, hrun, hcalls, hflags, hbad, fun hproper ↦ ?_⟩
  obtain ⟨r, hr, hreceived, hcall⟩ := hbad
  obtain ⟨packet, hpacket, hempty⟩ := Option.map_eq_some_iff.mp hreceived
  exact hcall ((hproper r hr).2 packet hpacket hempty).2.1

end Control

end DeviceAgent
