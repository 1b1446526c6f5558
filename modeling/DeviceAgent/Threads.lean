import DeviceAgent.ControlLoop

/-!
# The control thread and the data thread

`ControlTask::doProcess` and `DataTask::doProcess` run side by side and share the power
flag of the modem and the mark that the control channel is up.  Only the control thread
writes these two; the data thread polls them, so that it may miss a change, or act on a
value that has been overwritten since.  The points of a thread lie between its accesses to
these two.  The error flags are shared too, but what a negotiation or a command makes of
them is part of its step.
-/

namespace DeviceAgent

/-! ## The two programs -/

/-- The points of `ControlTask::doProcess`. -/
inductive ControlPoint
  | loop
  /-- In `PowerOn`. -/
  | powerOn
  /-- Behind `PowerOn`. -/
  | powered
  | command
  /-- In the `try` block. -/
  | execute
  | caught (e : ChannelException)
  | negotiate
  | rest
  /-- Before `SetControlDone(false)`. -/
  | done
  /-- Behind the sleep that follows. -/
  | asleep
  deriving DecidableEq, Repr

/-- The points of `DataTask::doProcess`; those inside `NegoiateDataChannel` say whether
`SendCurrentData` has called it. -/
inductive DataPoint
  | loop
  | waitControl (sending : Bool)
  /-- Behind the second of sleep in the wait for the control channel. -/
  | slept (sending : Bool)
  | negotiate (sending : Bool)
  | send
  | report
  | waitOff
  | waitOn
  deriving DecidableEq, Repr

/-- What the outside does during a step of the data thread. -/
structure DataInput where
  /-- What `NegoiateDataChannel` returns behind its wait. -/
  nPort : ℤ
  bExtCommunicationError : Bool
  /-- `SendCurrentData` has to negotiate again. -/
  unconnected : Bool
  deriving DecidableEq, Repr

structure Threads where
  cmd : Packet
  flags : Flags
  bPowerOff : Bool
  bControlDone : Bool
  control : ControlPoint
  data : DataPoint
  /-- How often the modem has been switched on. -/
  ons : ℕ
  /-- The value of `ons` when the control channel was last negotiated. -/
  doneAt : ℕ
  /-- How many sessions the data thread has begun, and the value of `ons` at the last. -/
  sessions : ℕ
  sessionAt : ℕ
  /-- The branch for an unreachable network has been taken. -/
  rebooting : Bool
  deriving DecidableEq, Repr

namespace Threads

def start : Threads where
  cmd := ⟨[], []⟩
  flags := ⟨false, false⟩
  bPowerOff := true
  bControlDone := false
  control := .loop
  data := .loop
  ons := 0
  doneAt := 0
  sessions := 0
  sessionAt := 0
  rebooting := false

/-- Where an exception leaves the `try` block, if there is one. -/
def behind : Option ChannelException → ControlPoint
  | none => .rest
  | some e => .caught e

/-- The `try` block. -/
def executeStep (i : ControlInput) (s : Threads) : Threads :=
  let r := s.cmd.receiveFrameFrom i.stream
  match r.thrown with
  | some e => { s with cmd := r.packet, control := .caught e }
  | none =>
      let x := Control.execute i r.packet s.flags
      { s with cmd := r.packet, flags := x.1, control := behind x.2.2.2 }

/-- The `catch` block, up to the negotiation. -/
def caughtStep (i : ControlInput) (e : ChannelException) (s : Threads) : Threads :=
  let s := if i.unReachable then { s with bPowerOff := true, rebooting := true } else s
  { s with control := if e.bUnConnected then .negotiate else .rest }

/-- `NegoiateControlChannel`. -/
def negotiateStep (i : ControlInput) (s : Threads) : Threads :=
  { s with
    flags := { s.flags with bExtCommunicationError := !i.negotiated }
    bControlDone := s.bControlDone || i.negotiated
    doneAt := if i.negotiated then s.ons else s.doneAt
    control := .rest }

def controlStep (i : ControlInput) (s : Threads) : Threads :=
  match s.control with
  | .loop => { s with control := if s.bPowerOff then .powerOn else .command }
  | .powerOn =>
      { s with
        bPowerOff := !i.poweredOn
        ons := if i.poweredOn then s.ons + 1 else s.ons
        control := .powered }
  | .powered =>
      { s with
        flags := { s.flags with bExtCommunicationError := s.bPowerOff }
        control := .command }
  | .command => { s with control := if s.bPowerOff then .rest else .execute }
  | .execute => executeStep i s
  | .caught e => caughtStep i e s
  | .negotiate => negotiateStep i s
  | .rest => { s with control := if i.timeForSleep then .done else .loop }
  | .done => { s with bControlDone := false, control := .asleep }
  | .asleep => { s with bPowerOff := true, control := .loop }

/-- Where the data thread goes when `NegoiateDataChannel` returns `nPort`. -/
def negotiated (sending : Bool) (nPort : ℤ) (s : Threads) : DataPoint :=
  if sending then
    if nPort = 0 ∨ s.flags.bExtCommunicationError ∨ s.bPowerOff then .report else .send
  else if nPort ≠ 0 ∧ nPort ≠ -1 then .send
  else .waitOff

/-- The flag of the external communication, as the data thread leaves it. -/
def setExt (d : DataInput) (s : Threads) : Threads :=
  { s with flags := { s.flags with bExtCommunicationError := d.bExtCommunicationError } }

def dataStep (d : DataInput) (s : Threads) : Threads :=
  match s.data with
  | .loop =>
      if s.bPowerOff then { s with data := .waitOff }
      else
        { s with data := .waitControl false, sessions := s.sessions + 1, sessionAt := s.ons }
  | .waitControl sending =>
      { s with data := if s.bControlDone then .negotiate sending else .slept sending }
  | .slept sending =>
      { s with data := if s.bPowerOff then s.negotiated sending 0 else .waitControl sending }
  | .negotiate sending => { s.setExt d with data := (s.setExt d).negotiated sending d.nPort }
  | .send => if d.unconnected then { s with data := .waitControl true }
      else { s.setExt d with data := .report }
  | .report => { s.setExt d with data := .waitOff }
  | .waitOff => { s with data := if s.bPowerOff then .waitOn else .waitOff }
  | .waitOn => { s with data := if s.bPowerOff then .waitOn else .loop }

inductive Event
  | control (i : ControlInput)
  | data (d : DataInput)

def step (s : Threads) : Event → Option Threads
  | .control i => some (s.controlStep i)
  | .data d => some (s.dataStep d)

/-! ## One pass of the control loop -/

/-- The thread has the packet, the flags and the power of this state of the control loop. -/
structure Matches (s : Threads) (c : Control) : Prop where
  cmd : s.cmd = c.cmd
  flags : s.flags = c.flags
  power : s.bPowerOff = c.bPowerOff

variable {i : ControlInput} {s : Threads} {c : Control}

theorem powerPhase_pass (hpoint : s.control = .loop) (h : s.Matches c) :
    ∃ n ≤ 3, ((controlStep i)^[n] s).control = .command ∧
      ((controlStep i)^[n] s).Matches (Control.powerPhase i c) := by
  cases hpower : s.bPowerOff with
  | true =>
      have hoff : c.bPowerOff = true := h.power ▸ hpower
      refine ⟨3, le_rfl, by simp [controlStep, hpoint, hpower], ?_, ?_, ?_⟩ <;>
        simp [controlStep, hpoint, hpower, Control.powerPhase, hoff, h.cmd, h.flags]
  | false =>
      have hon : c.bPowerOff = false := h.power ▸ hpower
      refine ⟨1, by decide, by simp [controlStep, hpoint, hpower], ?_, ?_, ?_⟩ <;>
        simp [controlStep, hpoint, hpower, Control.powerPhase, hon, h.cmd, h.flags]

/-- From the `catch` block on. -/
theorem onException_pass {e : ChannelException} (hpoint : s.control = .caught e)
    (h : s.Matches c) :
    ∃ n ≤ 2, ((controlStep i)^[n] s).control = .rest ∧
      ((controlStep i)^[n] s).Matches (Control.onException i e c) := by
  cases hunconnected : e.bUnConnected with
  | true =>
      refine ⟨2, le_rfl, ?_, ?_, ?_, ?_⟩ <;> cases hunreachable : i.unReachable <;>
        simp [controlStep, caughtStep, negotiateStep, hpoint, hunconnected, hunreachable,
          Control.onException, h.cmd, h.flags, h.power]
  | false =>
      refine ⟨1, by decide, ?_, ?_, ?_, ?_⟩ <;> cases hunreachable : i.unReachable <;>
        simp [controlStep, caughtStep, hpoint, hunconnected, hunreachable,
          Control.onException, h.cmd, h.flags, h.power]

theorem Matches.logged (h : s.Matches c) (log : List Record) : s.Matches { c with log := log } :=
  ⟨h.cmd, h.flags, h.power⟩

/-- From the `try` block on, with the power on. -/
theorem execute_pass (hpoint : s.control = .execute) (hon : s.bPowerOff = false)
    (h : s.Matches c) :
    ∃ n ≤ 3, ((controlStep i)^[n] s).control = .rest ∧
      ((controlStep i)^[n] s).Matches (Control.commandPhase i c) := by
  have hpower : c.bPowerOff = false := h.power ▸ hon
  have hread : s.cmd.receiveFrameFrom i.stream = c.getCommand i := by rw [h.cmd]; rfl
  have hstep : controlStep i s = executeStep i s := by rw [controlStep, hpoint]
  cases hthrown : (c.getCommand i).thrown with
  | some e =>
      have hcaught : (executeStep i s).control = .caught e := by
        simp [executeStep, hread, hthrown]
      have hmatch : (executeStep i s).Matches { c with cmd := (c.getCommand i).packet } := by
        constructor <;> simp [executeStep, hread, hthrown, h.flags, h.power]
      rw [hpower] at hmatch
      obtain ⟨n, hn, hrest, hafter⟩ := onException_pass (i := i) hcaught hmatch
      rw [← hstep, ← Function.iterate_succ_apply] at hrest hafter
      refine ⟨n + 1, by omega, hrest, ?_⟩
      simp only [Control.commandPhase, hpower, hthrown, Bool.false_eq_true, if_false]
      exact hafter.logged _
  | none =>
      have hmatch : (executeStep i s).Matches { c with
          cmd := (c.getCommand i).packet
          flags := (Control.execute i (c.getCommand i).packet c.flags).1 } := by
        constructor <;> simp [executeStep, hread, hthrown, h.flags, h.power]
      rw [hpower] at hmatch
      have hbehind : (executeStep i s).control =
          behind (Control.execute i (c.getCommand i).packet c.flags).2.2.2 := by
        simp [executeStep, hread, hthrown, h.flags]
      cases hended : (Control.execute i (c.getCommand i).packet c.flags).2.2.2 with
      | none =>
          rw [hended] at hbehind
          refine ⟨1, by decide, by rw [Function.iterate_one, hstep, hbehind]; rfl, ?_⟩
          simp only [Function.iterate_one, hstep, Control.commandPhase, hpower, hthrown, hended,
            Bool.false_eq_true, if_false]
          exact hmatch.logged _
      | some e =>
          rw [hended] at hbehind
          obtain ⟨n, hn, hrest, hafter⟩ := onException_pass (i := i) hbehind hmatch
          rw [← hstep, ← Function.iterate_succ_apply] at hrest hafter
          refine ⟨n + 1, by omega, hrest, ?_⟩
          simp only [Control.commandPhase, hpower, hthrown, hended, Bool.false_eq_true, if_false]
          exact hafter.logged _

theorem commandPhase_pass (hpoint : s.control = .command) (h : s.Matches c) :
    ∃ n ≤ 4, ((controlStep i)^[n] s).control = .rest ∧
      ((controlStep i)^[n] s).Matches (Control.commandPhase i c) := by
  cases hpower : s.bPowerOff with
  | true =>
      have hoff : c.bPowerOff = true := h.power ▸ hpower
      refine ⟨1, by decide, by simp [controlStep, hpoint, hpower], ?_, ?_, ?_⟩ <;>
        simp [controlStep, hpoint, hpower, Control.commandPhase, hoff, h.cmd, h.flags]
  | false =>
      have hstep : controlStep i s = { s with control := .execute } := by
        simp [controlStep, hpoint, hpower]
      obtain ⟨n, hn, hrest, hafter⟩ := execute_pass (i := i) (s := { s with control := .execute })
        rfl hpower ⟨h.cmd, h.flags, h.power⟩
      rw [← hstep, ← Function.iterate_succ_apply] at hrest hafter
      exact ⟨n + 1, by omega, hrest, hafter⟩

theorem sleepPhase_pass (hpoint : s.control = .rest) (h : s.Matches c) :
    ∃ n ≤ 3, ((controlStep i)^[n] s).control = .loop ∧
      ((controlStep i)^[n] s).Matches (Control.sleepPhase i c) := by
  cases hsleep : i.timeForSleep with
  | true =>
      refine ⟨3, le_rfl, by simp [controlStep, hpoint, hsleep], ?_, ?_, ?_⟩ <;>
        simp [controlStep, hpoint, hsleep, Control.sleepPhase, h.cmd, h.flags]
  | false =>
      refine ⟨1, by decide, by simp [controlStep, hpoint, hsleep], ?_, ?_, ?_⟩ <;>
        simp [controlStep, hpoint, hsleep, Control.sleepPhase, h.cmd, h.flags, h.power]

/-- Without the data thread the control thread goes through its loop as `Control.step`
does, which takes a pass as one step. -/
theorem pass_matches_step (i : ControlInput) (s : Threads) (c : Control)
    (hpoint : s.control = .loop) (h : s.Matches c) :
    ∃ n ≤ 10, ∃ c', c.step i = some c' ∧ ((controlStep i)^[n] s).control = .loop ∧
      ((controlStep i)^[n] s).Matches c' := by
  obtain ⟨n₁, hn₁, hpoint₁, hmatch₁⟩ := powerPhase_pass (i := i) hpoint h
  obtain ⟨n₂, hn₂, hpoint₂, hmatch₂⟩ := commandPhase_pass (i := i) hpoint₁ hmatch₁
  obtain ⟨n₃, hn₃, hpoint₃, hmatch₃⟩ := sleepPhase_pass (i := i) hpoint₂ hmatch₂
  simp only [← Function.iterate_add_apply] at hpoint₃ hmatch₃
  exact ⟨n₃ + (n₂ + n₁), by omega, _, rfl, hpoint₃, hmatch₃⟩

/-- The modem can be switched on, the control channel is down and can be negotiated. -/
def firstPass : ControlInput where
  poweredOn := true
  stream := [.fail ⟨0, true⟩]
  transfer := []
  history := ([], none)
  unReachable := false
  negotiated := true
  timeForSleep := false

theorem pass_matches_step_first :
    start.control = .loop ∧ start.Matches ⟨⟨[], []⟩, ⟨false, false⟩, true, []⟩ ∧
      ∃ n ≤ 10, ∃ c', Control.step ⟨⟨[], []⟩, ⟨false, false⟩, true, []⟩ firstPass = some c' ∧
        ((controlStep firstPass)^[n] start).control = .loop ∧
        ((controlStep firstPass)^[n] start).Matches c' :=
  ⟨rfl, ⟨rfl, rfl, rfl⟩, pass_matches_step firstPass start _ rfl ⟨rfl, rfl, rfl⟩⟩

end Threads

/-! ## Any interleaving -/

/-- The data thread is in a session. -/
def DataPoint.inSession : DataPoint → Bool
  | .waitControl _ | .slept _ | .negotiate _ | .send | .report => true
  | .loop | .waitOff | .waitOn => false

/-- The data thread has found the modem off since its last session, or had none yet. -/
def DataPoint.seenOff : DataPoint → Bool
  | .loop | .waitOn => true
  | .waitControl _ | .slept _ | .negotiate _ | .send | .report | .waitOff => false

/-- The session has found the control channel up. -/
def DataPoint.pastWait : DataPoint → Bool
  | .waitControl sending | .slept sending => sending
  | .negotiate _ | .send | .report => true
  | .loop | .waitOff | .waitOn => false

namespace Threads

/-- What the control thread knows at a point, as long as it has not given up the network. -/
def AtControl (s : Threads) : ControlPoint → Prop
  | .powerOn => s.bPowerOff = true
  | .execute | .caught _ | .negotiate => s.bPowerOff = false
  | .asleep => s.bControlDone = false
  | .loop | .powered | .command | .rest | .done => True

structure Current (s : Threads) : Prop where
  mark : s.bControlDone = true → s.bPowerOff = false ∧ s.doneAt = s.ons
  on : s.bPowerOff = false → 0 < s.ons
  control : s.AtControl s.control
  doneAt_le : s.doneAt ≤ s.ons
  sessionAt_le : s.sessionAt ≤ s.ons
  begun : s.data.inSession = true → 0 < s.sessionAt
  past : s.data.pastWait = true → s.sessionAt ≤ s.doneAt

theorem current_start : Current start where
  mark := by simp [start]
  on := by simp [start]
  control := trivial
  doneAt_le := le_rfl
  sessionAt_le := le_rfl
  begun := by simp [start, DataPoint.inSession]
  past := by simp [start, DataPoint.pastWait]

variable {s : Threads}

/-- The control thread moves on with the flags as they are. -/
theorem Current.movesOn (h : Current s) (point : ControlPoint) (hat : s.AtControl point)
    (cmd : Packet) (flags : Flags) :
    Current { s with cmd := cmd, flags := flags, control := point } :=
  ⟨h.mark, h.on, hat, h.doneAt_le, h.sessionAt_le, h.begun, h.past⟩

theorem Current.powerOn (h : Current s) (hoff : s.bPowerOff = true) (i : ControlInput) :
    Current { s with
      bPowerOff := !i.poweredOn
      ons := if i.poweredOn then s.ons + 1 else s.ons
      control := .powered } := by
  have hmark : s.bControlDone ≠ true := by
    intro hdone
    rw [(h.mark hdone).1] at hoff
    cases hoff
  have hgrown : s.ons ≤ if i.poweredOn then s.ons + 1 else s.ons := by
    split <;> omega
  refine ⟨fun hdone ↦ absurd hdone hmark, fun hon ↦ ?_, trivial, h.doneAt_le.trans hgrown,
    h.sessionAt_le.trans hgrown, h.begun, h.past⟩
  have hpowered : i.poweredOn = true := by simpa using hon
  rw [if_pos hpowered]
  exact Nat.succ_pos _

theorem Current.negotiate (h : Current s) (hon : s.bPowerOff = false) (i : ControlInput) :
    Current (negotiateStep i s) := by
  cases hnegotiated : i.negotiated with
  | true =>
      simp only [negotiateStep, hnegotiated, Bool.or_true, if_true]
      exact ⟨fun _ ↦ ⟨hon, rfl⟩, h.on, trivial, le_rfl, h.sessionAt_le, h.begun,
        fun _ ↦ h.sessionAt_le⟩
  | false =>
      simp only [negotiateStep, hnegotiated, Bool.or_false, Bool.false_eq_true, if_false]
      exact h.movesOn .rest trivial _ _

theorem Current.execute (h : Current s) (hon : s.bPowerOff = false) (i : ControlInput) :
    Current (executeStep i s) := by
  have hbehind : ∀ ended, s.AtControl (behind ended) := by
    intro ended
    cases ended with
    | none => trivial
    | some e => exact hon
  unfold executeStep
  dsimp only
  split
  · exact h.movesOn (.caught _) hon _ _
  · exact h.movesOn _ (hbehind _) _ _

theorem Current.controlStep (h : Current s) (i : ControlInput) :
    (s.controlStep i).rebooting = true ∨ Current (s.controlStep i) := by
  have hat := h.control
  unfold Threads.controlStep
  cases hpoint : s.control with
  | loop =>
      refine Or.inr (h.movesOn _ ?_ _ _)
      split_ifs with hoff
      · exact hoff
      · trivial
  | powerOn =>
      rw [hpoint] at hat
      exact Or.inr (h.powerOn hat i)
  | powered => exact Or.inr (h.movesOn .command trivial _ _)
  | command =>
      refine Or.inr (h.movesOn _ ?_ _ _)
      split_ifs with hoff
      · trivial
      · exact eq_false_of_ne_true hoff
  | execute =>
      rw [hpoint] at hat
      exact Or.inr (h.execute hat i)
  | caught e =>
      rw [hpoint] at hat
      cases hunreachable : i.unReachable with
      | true => exact Or.inl (by simp [caughtStep, hunreachable])
      | false =>
          simp only [caughtStep, hunreachable, Bool.false_eq_true, if_false]
          refine Or.inr (h.movesOn _ ?_ _ _)
          split_ifs
          · exact hat
          · trivial
  | negotiate =>
      rw [hpoint] at hat
      exact Or.inr (h.negotiate hat i)
  | rest =>
      refine Or.inr (h.movesOn _ ?_ _ _)
      split_ifs <;> trivial
  | done =>
      exact Or.inr ⟨fun hdone ↦ Bool.noConfusion hdone, h.on, rfl, h.doneAt_le, h.sessionAt_le,
        h.begun, h.past⟩
  | asleep =>
      rw [hpoint] at hat
      have hmark : s.bControlDone = false := hat
      refine Or.inr ⟨fun hdone ↦ ?_, fun hon ↦ Bool.noConfusion hon, trivial, h.doneAt_le,
        h.sessionAt_le, h.begun, h.past⟩
      exact absurd (hmark.symm.trans hdone) Bool.false_ne_true

/-- The data thread moves on inside or behind a session. -/
theorem Current.dataMoves (h : Current s) (point : DataPoint)
    (hbegun : point.inSession = true → s.data.inSession = true)
    (hpast : point.pastWait = true → s.sessionAt ≤ s.doneAt) (flags : Flags) :
    Current { s with flags := flags, data := point } :=
  ⟨h.mark, h.on, h.control, h.doneAt_le, h.sessionAt_le, fun hin ↦ h.begun (hbegun hin), hpast⟩

theorem pastWait_negotiated {sending : Bool} {nPort : ℤ} (s : Threads)
    (hpast : sending = true → s.sessionAt ≤ s.doneAt) (hzero : nPort ≠ 0 → s.sessionAt ≤ s.doneAt)
    (h : (s.negotiated sending nPort).pastWait = true) : s.sessionAt ≤ s.doneAt := by
  cases sending with
  | true => exact hpast rfl
  | false =>
      unfold negotiated at h
      simp only [Bool.false_eq_true, if_false] at h
      split_ifs at h with hport
      · exact hzero hport.1
      · cases h

theorem Current.dataStep (h : Current s) (d : DataInput) : Current (s.dataStep d) := by
  have hbegun := h.begun
  have hpast := h.past
  unfold Threads.dataStep
  cases hpoint : s.data with
  | loop =>
      dsimp only
      split_ifs with hoff
      · exact h.dataMoves .waitOff (fun hin ↦ Bool.noConfusion hin)
          (fun hin ↦ Bool.noConfusion hin) _
      · exact ⟨h.mark, h.on, h.control, h.doneAt_le, le_rfl,
          fun _ ↦ h.on (eq_false_of_ne_true hoff), fun hin ↦ Bool.noConfusion hin⟩
  | waitControl sending =>
      rw [hpoint] at hpast
      refine h.dataMoves _ (fun _ ↦ by rw [hpoint]; rfl) (fun hnext ↦ ?_) _
      split_ifs at hnext with hdone
      · rw [(h.mark hdone).2]
        exact h.sessionAt_le
      · exact hpast hnext
  | slept sending =>
      rw [hpoint] at hpast
      refine h.dataMoves _ (fun _ ↦ by rw [hpoint]; rfl) (fun hnext ↦ ?_) _
      split_ifs at hnext
      · exact pastWait_negotiated s hpast (fun hne ↦ absurd rfl hne) hnext
      · exact hpast hnext
  | negotiate sending =>
      rw [hpoint] at hpast
      refine h.dataMoves _ (fun _ ↦ by rw [hpoint]; rfl) (fun _ ↦ hpast rfl) _
  | send =>
      rw [hpoint] at hpast
      dsimp only
      split_ifs
      · exact h.dataMoves (.waitControl true) (fun _ ↦ by rw [hpoint]; rfl)
          (fun _ ↦ hpast rfl) _
      · exact h.dataMoves .report (fun _ ↦ by rw [hpoint]; rfl) (fun _ ↦ hpast rfl) _
  | report =>
      exact h.dataMoves .waitOff (fun hin ↦ Bool.noConfusion hin)
        (fun hin ↦ Bool.noConfusion hin) _
  | waitOff =>
      refine h.dataMoves _ (fun hin ↦ ?_) (fun hin ↦ ?_) _ <;> split_ifs at hin <;> cases hin
  | waitOn =>
      refine h.dataMoves _ (fun hin ↦ ?_) (fun hin ↦ ?_) _ <;> split_ifs at hin <;> cases hin

theorem rebooting_controlStep (i : ControlInput) (h : s.rebooting = true) :
    (s.controlStep i).rebooting = true := by
  unfold Threads.controlStep
  cases s.control with
  | execute =>
      dsimp only [executeStep]
      split <;> exact h
  | caught e =>
      dsimp only [caughtStep]
      split
      · rfl
      · exact h
  | _ => exact h

theorem rebooting_dataStep (d : DataInput) : (s.dataStep d).rebooting = s.rebooting := by
  unfold Threads.dataStep
  cases s.data with
  | loop =>
      dsimp only
      split <;> rfl
  | send =>
      dsimp only
      split <;> rfl
  | _ => rfl

theorem current_of_reaches (hreach : Transition.Reaches step (fun _ _ ↦ True) start s) :
    s.rebooting = true ∨ Current s := by
  refine hreach.invariant (fun s ↦ s.rebooting = true ∨ Current s) ?_ (Or.inr current_start)
  rintro s (i | d) s' hs - hstep
  · obtain rfl := Option.some.inj hstep
    rcases hs with hrebooting | hs
    · exact Or.inl (rebooting_controlStep i hrebooting)
    · exact hs.controlStep i
  · obtain rfl := Option.some.inj hstep
    rcases hs with hrebooting | hs
    · exact Or.inl ((rebooting_dataStep d).trans hrebooting)
    · exact Or.inr (hs.dataStep d)

/-- The control thread goes as far as the negotiation, the data thread as far as sending. -/
def firstSession : List Event :=
  List.replicate 7 (.control firstPass) ++ List.replicate 3 (.data ⟨50002, false, false⟩)

/-- Everything a step of the control thread does to the power and to the sessions. -/
theorem controlStep_power (i : ControlInput) (s : Threads) :
    (s.controlStep i).data = s.data ∧ (s.controlStep i).sessions = s.sessions ∧
      ((s.controlStep i).ons = s.ons ∧
          ((s.controlStep i).bPowerOff = s.bPowerOff ∨ (s.controlStep i).bPowerOff = true) ∨
        (s.controlStep i).ons = s.ons + 1) := by
  unfold Threads.controlStep
  cases s.control with
  | powerOn =>
      cases i.poweredOn with
      | true => exact ⟨rfl, rfl, Or.inr rfl⟩
      | false => exact ⟨rfl, rfl, Or.inl ⟨rfl, Or.inr rfl⟩⟩
  | execute =>
      dsimp only [executeStep]
      split <;> exact ⟨rfl, rfl, Or.inl ⟨rfl, Or.inl rfl⟩⟩
  | caught e =>
      dsimp only [caughtStep]
      split
      · exact ⟨rfl, rfl, Or.inl ⟨rfl, Or.inr rfl⟩⟩
      · exact ⟨rfl, rfl, Or.inl ⟨rfl, Or.inl rfl⟩⟩
  | asleep => exact ⟨rfl, rfl, Or.inl ⟨rfl, Or.inr rfl⟩⟩
  | _ => exact ⟨rfl, rfl, Or.inl ⟨rfl, Or.inl rfl⟩⟩

/-- The session the data thread may begin next is one more than those begun. -/
def Paced (s : Threads) : Prop :=
  s.sessions + (s.data.seenOff && !s.bPowerOff).toNat ≤ s.ons

theorem Paced.controlStep (h : Paced s) (i : ControlInput) : Paced (s.controlStep i) := by
  obtain ⟨hdata, hsessions, hpower⟩ := s.controlStep_power i
  unfold Paced at h ⊢
  rw [hdata, hsessions]
  rcases hpower with ⟨hons, hsame | hoff⟩ | hons
  · rw [hons, hsame]
    exact h
  · rw [hons, hoff, Bool.not_true, Bool.and_false]
    exact (Nat.le_add_right _ _).trans h
  · have hnext := Bool.toNat_le (s.data.seenOff && !(s.controlStep i).bPowerOff)
    omega

theorem Paced.dataMoves (h : Paced s) (point : DataPoint)
    (hseen : point.seenOff = true → s.data.seenOff = true ∨ s.bPowerOff = true) (flags : Flags) :
    Paced { s with flags := flags, data := point } := by
  have hless : (point.seenOff && !s.bPowerOff).toNat ≤ (s.data.seenOff && !s.bPowerOff).toNat := by
    cases hpoint : point.seenOff with
    | false => exact Nat.zero_le _
    | true => rcases hseen hpoint with hdata | hoff <;> simp [*]
  exact (Nat.add_le_add_left hless _).trans h

theorem Paced.dataStep (h : Paced s) (d : DataInput) : Paced (s.dataStep d) := by
  have hnever : ∀ sending nPort, ((s.setExt d).negotiated sending nPort).seenOff = false ∧
      (s.negotiated sending nPort).seenOff = false := by
    intro sending nPort
    unfold negotiated
    split_ifs <;> exact ⟨rfl, rfl⟩
  unfold Threads.dataStep
  cases hpoint : s.data with
  | loop =>
      dsimp only
      split_ifs with hoff
      · exact h.dataMoves .waitOff (fun hseen ↦ Bool.noConfusion hseen) _
      · unfold Paced at h ⊢
        simpa [hpoint, DataPoint.seenOff, hoff] using h
  | waitControl sending =>
      refine h.dataMoves _ (fun hseen ↦ ?_) _
      split_ifs at hseen <;> cases hseen
  | slept sending =>
      refine h.dataMoves _ (fun hseen ↦ ?_) _
      split_ifs at hseen
      · rw [(hnever sending 0).2] at hseen
        cases hseen
      · cases hseen
  | negotiate sending =>
      refine h.dataMoves _ (fun hseen ↦ ?_) _
      rw [(hnever sending d.nPort).1] at hseen
      cases hseen
  | send =>
      dsimp only
      split_ifs
      · exact h.dataMoves (.waitControl true) (fun hseen ↦ Bool.noConfusion hseen) _
      · exact h.dataMoves .report (fun hseen ↦ Bool.noConfusion hseen) _
  | report => exact h.dataMoves .waitOff (fun hseen ↦ Bool.noConfusion hseen) _
  | waitOff =>
      refine h.dataMoves _ (fun hseen ↦ ?_) _
      split_ifs at hseen with hoff
      · exact Or.inr hoff
      · cases hseen
  | waitOn => exact h.dataMoves _ (fun _ ↦ Or.inl (by rw [hpoint]; rfl)) _

/-- Under every interleaving the data thread begins at most one session each time the
modem is switched on: between two sessions it has found the modem off. -/
theorem sessions_le_ons (s : Threads)
    (hreach : Transition.Reaches step (fun _ _ ↦ True) start s) : s.sessions ≤ s.ons := by
  have hpaced : Paced s := by
    refine hreach.invariant Paced ?_ le_rfl
    rintro s (i | d) s' hs - hstep
    · obtain rfl := Option.some.inj hstep
      exact hs.controlStep i
    · obtain rfl := Option.some.inj hstep
      exact hs.dataStep d
  exact (Nat.le_add_right _ _).trans hpaced

theorem sessions_le_ons_first :
    ∃ s, Transition.Reaches step (fun _ _ ↦ True) start s ∧ s.sessions = 1 ∧
      s.sessions ≤ s.ons := by
  obtain ⟨s, hrun, hsessions⟩ := Transition.exists_run step firstSession start
    (fun s ↦ s.sessions = 1) (by decide)
  have hreach := Transition.Reaches.of_run (Transition.meets_true firstSession start) hrun
  exact ⟨s, hreach, hsessions, sessions_le_ons s hreach⟩

/-- There may be fewer: a data thread that is still busy does not see the modem go off and
on again, and waits for the next time. -/
example : (Transition.run step (firstSession ++ List.replicate 8 (.control
      { firstPass with stream := [], timeForSleep := true }) ++
    List.replicate 3 (.data ⟨50002, false, false⟩)) start).any (fun s ↦
      s.ons = 2 ∧ s.sessions = 1 ∧ s.data = .waitOff) = true := by
  decide

/-! ## No dead ends -/

/-- The control channel is down and cannot be negotiated, and it is time to sleep. -/
def lastPass : ControlInput where
  poweredOn := false
  stream := [.fail ⟨0, true⟩]
  transfer := []
  history := ([], none)
  unReachable := false
  negotiated := false
  timeForSleep := true

theorem executeStep_unconnected {i : ControlInput} (hi : i.stream = [.fail ⟨0, true⟩])
    (s : Threads) :
    executeStep i s = { s with cmd := s.cmd.clear, control := .caught ⟨0, true⟩ } := by
  rw [executeStep, hi]
  rfl

/-- How far the control thread is from having switched the modem off. -/
def controlRank (s : Threads) : ℕ :=
  match s.control with
  | .loop => if s.bPowerOff then 0 else 10
  | .powerOn => 9
  | .powered => 8
  | .command => 7
  | .execute => 6
  | .caught _ => 5
  | .negotiate => 4
  | .rest => 3
  | .done => 2
  | .asleep => 1

theorem controlRank_fall (hnot : ¬ (s.control = .loop ∧ s.bPowerOff = true)) :
    controlRank (s.controlStep lastPass) < controlRank s := by
  cases hpoint : s.control with
  | loop =>
      have hon : s.bPowerOff = false := by simpa [hpoint] using hnot
      simp [controlRank, controlStep, hpoint, hon]
  | command =>
      cases hpower : s.bPowerOff <;> simp [controlRank, controlStep, hpoint, hpower]
  | caught e =>
      cases hunconnected : e.bUnConnected <;>
        simp [controlRank, controlStep, caughtStep, hpoint, hunconnected, lastPass]
  | execute => simp [controlRank, controlStep, executeStep_unconnected (i := lastPass) rfl, hpoint]
  | powerOn => simp [controlRank, controlStep, hpoint]
  | powered => simp [controlRank, controlStep, hpoint]
  | negotiate => simp [controlRank, controlStep, negotiateStep, hpoint]
  | rest => simp [controlRank, controlStep, hpoint, lastPass]
  | done => simp [controlRank, controlStep, hpoint]
  | asleep => simp [controlRank, controlStep, hpoint]

/-- How far the data thread is from waiting for the modem, while it is off. -/
def dataRank (s : Threads) : ℕ :=
  match s.data with
  | .waitControl _ => 4
  | .slept _ => 3
  | .negotiate _ => 3
  | .send => 3
  | .loop => 2
  | .report => 2
  | .waitOff => 1
  | .waitOn => 0

/-- Nothing can be negotiated or sent. -/
def noAnswer : DataInput := ⟨0, false, false⟩

theorem dataRank_fall (hoff : s.bPowerOff = true) (hnot : s.data ≠ .waitOn) :
    dataRank (s.dataStep noAnswer) < dataRank s := by
  cases hpoint : s.data with
  | waitControl sending =>
      cases hdone : s.bControlDone <;> simp [dataRank, dataStep, hpoint, hdone]
  | slept sending => cases sending <;> simp [dataRank, dataStep, negotiated, hpoint, hoff]
  | negotiate sending =>
      cases sending <;> simp [dataRank, dataStep, setExt, negotiated, hpoint, noAnswer]
  | send => simp [dataRank, dataStep, setExt, hpoint, noAnswer]
  | loop => simp [dataRank, dataStep, hpoint, hoff]
  | report => simp [dataRank, dataStep, setExt, hpoint]
  | waitOff => simp [dataRank, dataStep, hpoint, hoff]
  | waitOn => exact absurd hpoint hnot

theorem dataStep_off (d : DataInput) (hoff : s.bPowerOff = true) :
    (s.dataStep d).bPowerOff = true ∧ (s.dataStep d).control = s.control ∧
      (s.dataStep d).sessions = s.sessions ∧ (s.dataStep d).ons = s.ons := by
  unfold dataStep
  cases s.data with
  | loop => exact ⟨by simp [hoff], by simp [hoff], by simp [hoff], by simp [hoff]⟩
  | send =>
      dsimp only
      split_ifs <;> exact ⟨hoff, rfl, rfl, rfl⟩
  | _ => exact ⟨hoff, rfl, rfl, rfl⟩

/-- Since `s` no session has begun; the modem may have been switched on. -/
structure OnTheWay (s t : Threads) : Prop where
  sessions : t.sessions = s.sessions
  ons : s.ons ≤ t.ons

/-- The modem can always be switched off, with the control thread at the head of its loop. -/
theorem leads_off (s : Threads) :
    ∃ n s', Transition.LeadsTo step (fun _ ↦ True) n s s' ∧ n ≤ 10 ∧
      OnTheWay s s' ∧ s'.control = .loop ∧ s'.bPowerOff = true := by
  have hfall : ∀ t : Threads, OnTheWay s t → ¬ (t.control = .loop ∧ t.bPowerOff = true) →
      ∃ e t', True ∧ t.step e = some t' ∧ controlRank t' < controlRank t ∧ OnTheWay s t' := by
    intro t hway hnot
    obtain ⟨-, hsessions, hons⟩ := controlStep_power lastPass t
    refine ⟨.control lastPass, _, trivial, rfl, controlRank_fall hnot,
      hsessions.trans hway.sessions, hway.ons.trans ?_⟩
    rcases hons with ⟨hsame, -⟩ | hmore <;> omega
  obtain ⟨n, s', hleads, hcost, hway, hoff⟩ :=
    Transition.exists_leadsTo controlRank hfall ⟨rfl, le_rfl⟩
  have hrank : controlRank s ≤ 10 := by
    unfold controlRank
    split <;> (try split) <;> omega
  exact ⟨n, s', hleads, by omega, hway, hoff⟩

/-- While it is off the data thread comes to wait for it. -/
theorem leads_waitOn (hcontrol : s.control = .loop) (hoff : s.bPowerOff = true) :
    ∃ n s', Transition.LeadsTo step (fun _ ↦ True) n s s' ∧ n ≤ 4 ∧
      (OnTheWay s s' ∧ s'.control = .loop ∧ s'.bPowerOff = true) ∧ s'.data = .waitOn := by
  have hfall : ∀ t : Threads, (OnTheWay s t ∧ t.control = .loop ∧ t.bPowerOff = true) →
      ¬ t.data = .waitOn → ∃ e t', True ∧ t.step e = some t' ∧ dataRank t' < dataRank t ∧
        (OnTheWay s t' ∧ t'.control = .loop ∧ t'.bPowerOff = true) := by
    rintro t ⟨hway, hcontrol, hoff⟩ hnot
    obtain ⟨hpower, hsame, hsessions, hons⟩ := dataStep_off noAnswer hoff
    exact ⟨.data noAnswer, _, trivial, rfl, dataRank_fall hoff hnot,
      ⟨hsessions.trans hway.sessions, hway.ons.trans hons.ge⟩, hsame.trans hcontrol, hpower⟩
  obtain ⟨n, s', hleads, hcost, hkept, hwaits⟩ :=
    Transition.exists_leadsTo dataRank hfall ⟨⟨rfl, le_rfl⟩, hcontrol, hoff⟩
  have hrank : dataRank s ≤ 4 := by
    unfold dataRank
    split <;> omega
  exact ⟨n, s', hleads, by omega, hkept, hwaits⟩

theorem leads_control (i : ControlInput) (n : ℕ) (s : Threads) :
    Transition.LeadsTo step (fun _ ↦ True) n s ((controlStep i)^[n] s) := by
  induction n generalizing s with
  | zero => exact .refl s
  | succ n ih => exact .head (a := .control i) trivial rfl (ih (s.controlStep i))

theorem leads_data (d : DataInput) (n : ℕ) (s : Threads) :
    Transition.LeadsTo step (fun _ ↦ True) n s ((dataStep d)^[n] s) := by
  induction n generalizing s with
  | zero => exact .refl s
  | succ n ih => exact .head (a := .data d) trivial rfl (ih (s.dataStep d))

/-- The modem is switched on, and the control channel negotiated. -/
theorem leads_negotiated (hcontrol : s.control = .loop) (hoff : s.bPowerOff = true) :
    ∃ s', Transition.LeadsTo step (fun _ ↦ True) 7 s s' ∧ s'.sessions = s.sessions ∧
      s'.data = s.data ∧ s'.bPowerOff = false ∧ s'.bControlDone = true ∧ s.ons < s'.ons ∧
      s'.doneAt = s'.ons := by
  refine ⟨_, leads_control firstPass 7 s, ?_⟩
  have hexecute := fun t ↦ executeStep_unconnected (i := firstPass) rfl t
  have hon : firstPass.poweredOn = true := rfl
  have hreachable : firstPass.unReachable = false := rfl
  have hnegotiated : firstPass.negotiated = true := rfl
  simp [controlStep, hexecute, caughtStep, negotiateStep, hcontrol, hoff, hon, hreachable,
    hnegotiated]

/-- The data thread finds the modem on and the control channel up. -/
theorem leads_send (hdata : s.data = .waitOn) (hon : s.bPowerOff = false)
    (hdone : s.bControlDone = true) :
    ∃ s', Transition.LeadsTo step (fun _ ↦ True) 4 s s' ∧ s'.sessions = s.sessions + 1 ∧
      s'.data = .send ∧ s'.bPowerOff = false ∧ s'.bControlDone = true ∧ s'.ons = s.ons ∧
      s'.doneAt = s.doneAt := by
  refine ⟨_, leads_data ⟨50002, false, false⟩ 4 s, ?_⟩
  simp [dataStep, setExt, negotiated, hdata, hon, hdone]

end Threads

end DeviceAgent
