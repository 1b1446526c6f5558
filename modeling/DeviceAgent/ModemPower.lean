import DeviceAgent.AtCommands

/-!
# Switching the modem on

`PowerOn` opens the AT port, then goes through one of two routines, and a call of
`ConnectIP` that succeeds ends it.  It is modelled over any unit that answers the
commands: of a command only its verdict matters, or that it threw, and that it leaves the
port as it was or closed.  The commands of the modem are such a unit.
-/

namespace DeviceAgent

open Procedure

inductive Command
  | echoOff
  | checkSignalLevel
  | checkContext
  | uT_PowerOn
  | attachNet
  | logonIP
  | connectIP
  | uT_Reset
  deriving DecidableEq, Repr

/-- What answers the commands, with the AT port in its state. -/
structure AtUnit (σ : Type) where
  port : σ → TCPPort
  setPort : TCPPort → σ → σ
  port_setPort : ∀ p s, port (setPort p s) = p
  exec : Command → EStateM ChannelException σ Bool
  keeps : ∀ c s, port (final (exec c s)) = port s ∨ port (final (exec c s)) = (port s).close

/-- The modem's own commands. -/
def Modem.command (config : Config) (below : ℤ → List Byte → Bool) : Command → AT Bool
  | .echoOff => echoOff
  | .checkSignalLevel => checkSignalLevel config below
  | .checkContext => checkContext config
  | .uT_PowerOn => Modem.uT_PowerOn config
  | .attachNet => attachNet
  | .logonIP => logonIP config
  | .connectIP => connectIP config
  | .uT_Reset => Modem.uT_Reset

def Modem.unit (config : Config) (below : ℤ → List Byte → Bool) : AtUnit AtLine where
  port := AtLine.UT_ATPort
  setPort p line := { line with UT_ATPort := p }
  port_setPort _ _ := rfl
  exec := command config below
  keeps c line := by
    cases c with
    | echoOff => exact keeps_exchange _ _ line
    | checkSignalLevel => exact keeps_checkSignalLevel config below line
    | checkContext => exact keeps_checkContext config line
    | uT_PowerOn => exact keeps_insist _ _ line
    | attachNet => exact keeps_attachNet line
    | logonIP => exact keeps_insist _ _ line
    | connectIP => exact keeps_connectIP config line
    | uT_Reset => exact keeps_exchange _ _ line

/-! ## The code of `PowerOn` -/

/-- The members and local flags `PowerOn` works on; `passes` counts the passes of its
loop, and `log` has every command with its verdict, or nothing if it threw. -/
structure PowerRun (σ : Type) where
  bPowerOff : Bool
  bModemOpen : Bool
  bModemOnFirstTime : Bool
  bOpenContext : Bool
  line : σ
  passes : ℕ
  log : List (Command × Option Bool)

/-- What `socket` and `connect` bring at one attempt. -/
structure OpenAttempt where
  socket : ℤ
  outcome : ConnectResult

namespace AtUnit

variable {σ : Type} (unit : AtUnit σ)

/-- `UT_ATPort.Close()`. -/
def close (line : σ) : σ := unit.setPort (unit.port line).close line

/-- The loop that opens the port, with `retry` attempts left. -/
def openPort (opens : ℕ → OpenAttempt) : ℕ → σ → Bool × σ
  | 0, line => (false, line)
  | retry + 1, line =>
      let result := (unit.port line).openRemote (opens retry).socket (opens retry).outcome
      if result.1 then (true, unit.setPort result.2 line)
      else openPort opens retry (unit.setPort result.2 line)

/-- The end of the error path, and what `catch` does. -/
def abandon (run : PowerRun σ) : PowerRun σ :=
  { run with bModemOpen := false, line := unit.close run.line }

/-- A command and what is done on its verdict. -/
def ask (c : Command) (yes no : PowerRun σ → Option (PowerRun σ)) (run : PowerRun σ) :
    Option (PowerRun σ) :=
  match unit.exec c run.line with
  | .ok true line => yes { run with line := line, log := run.log ++ [(c, some true)] }
  | .ok false line => no { run with line := line, log := run.log ++ [(c, some false)] }
  | .error _ line => some (unit.abandon { run with line := line, log := run.log ++ [(c, none)] })

/-- Behind the loop: `ONERROR`. -/
def onError : PowerRun σ → Option (PowerRun σ) :=
  unit.ask .uT_Reset (fun run ↦ some (unit.abandon run)) fun run ↦ some (unit.abandon run)

/-- A command that must succeed. -/
def need (c : Command) (next : PowerRun σ → Option (PowerRun σ)) :
    PowerRun σ → Option (PowerRun σ) :=
  unit.ask c next unit.onError

def connect : PowerRun σ → Option (PowerRun σ) :=
  unit.need .connectIP fun run ↦
    some { run with bModemOpen := true, line := unit.close run.line, bPowerOff := false }

def openContext (run : PowerRun σ) : Option (PowerRun σ) :=
  if run.bOpenContext then
    unit.need .uT_PowerOn (unit.need .attachNet (unit.need .logonIP (unit.need .checkContext
      (unit.need .checkSignalLevel unit.connect)))) run
  else unit.need .checkSignalLevel unit.connect run

/-- The context may be there from an earlier connection. -/
def findContext (run : PowerRun σ) : Option (PowerRun σ) :=
  if run.bModemOnFirstTime then
    unit.ask .checkContext (fun run ↦ unit.openContext { run with bOpenContext := false })
      (unit.need .checkSignalLevel unit.openContext) run
  else unit.openContext run

def firstTimeRoutine (run : PowerRun σ) : Option (PowerRun σ) :=
  if run.bModemOnFirstTime then
    unit.ask .echoOff (unit.need .checkSignalLevel unit.findContext)
      (unit.need .checkSignalLevel unit.findContext) run
  else unit.need .checkSignalLevel unit.findContext run

/-- The loop without a condition, with `fuel` passes to go; `none` if they are not
enough. -/
def powerLoop : ℕ → PowerRun σ → Option (PowerRun σ)
  | 0, _ => none
  | fuel + 1, run =>
      let run := { run with passes := run.passes + 1 }
      if run.bModemOpen then
        unit.ask .checkContext unit.connect (fun run ↦
          powerLoop fuel { run with bModemOpen := false, bModemOnFirstTime := false }) run
      else unit.firstTimeRoutine run

def powerOn (opens : ℕ → OpenAttempt) (fuel : ℕ) (bModemOpen : Bool) (line : σ) :
    Option (PowerRun σ) :=
  let opened := unit.openPort opens 3 line
  let run : PowerRun σ := ⟨true, bModemOpen, true, true, opened.2, 0, []⟩
  if opened.1 then unit.powerLoop fuel run else some run

end AtUnit

/-! ## What holds on every path -/

namespace AtUnit

variable {σ : Type} {unit : AtUnit σ} {run : PowerRun σ} {n : ℕ}

/-- In the loop: closing the port will disconnect it, and nothing has succeeded. -/
structure Ready (unit : AtUnit σ) (n : ℕ) (run : PowerRun σ) : Prop where
  off : run.bPowerOff = true
  failed : (Command.connectIP, some true) ∉ run.log
  closable : (unit.port run.line).bConnected = false ∨ 0 < (unit.port run.line).socketID
  passes : run.passes ≤ n

/-- On return from an opened port. -/
structure Ended (unit : AtUnit σ) (run : PowerRun σ) : Prop where
  passes : run.passes ≤ 2
  power : run.bPowerOff = false ↔ (Command.connectIP, some true) ∈ run.log
  modem : run.bModemOpen = !run.bPowerOff
  port : (unit.port run.line).isOpen = false

def Ends (unit : AtUnit σ) (result : Option (PowerRun σ)) : Prop :=
  ∃ run, result = some run ∧ unit.Ended run

theorem isOpen_close {line : σ}
    (h : (unit.port line).bConnected = false ∨ 0 < (unit.port line).socketID) :
    (unit.port (unit.close line)).isOpen = false := by
  rw [close, unit.port_setPort, TCPPort.isOpen]
  exact (TCPPort.close_bConnected _).mpr h

theorem closable_final {line : σ} (c : Command)
    (h : (unit.port line).bConnected = false ∨ 0 < (unit.port line).socketID) :
    (unit.port (final (unit.exec c line))).bConnected = false ∨
      0 < (unit.port (final (unit.exec c line))).socketID := by
  rcases unit.keeps c line with hsame | hclosed
  · rwa [hsame]
  · rw [hclosed]
    exact Or.inl ((TCPPort.close_bConnected _).mpr h)

theorem Ready.abandon (h : unit.Ready n run) (hn : n ≤ 2) : unit.Ended (unit.abandon run) :=
  ⟨h.passes.trans hn, iff_of_false (by rw [AtUnit.abandon, h.off]; decide) h.failed, by
    rw [AtUnit.abandon, h.off]
    rfl, isOpen_close h.closable⟩

/-- One command that is not `ConnectIP`, whatever its outcome. -/
theorem Ready.record (h : unit.Ready n run) {c : Command} {verdict : Option Bool}
    (hc : (c, verdict) ≠ (.connectIP, some true)) {line : σ}
    (hline : final (unit.exec c run.line) = line) :
    unit.Ready n { run with line := line, log := run.log ++ [(c, verdict)] } := by
  refine ⟨h.off, ?_, hline ▸ closable_final c h.closable, h.passes⟩
  rw [List.mem_append, List.mem_singleton, not_or]
  exact ⟨h.failed, fun heq ↦ hc heq.symm⟩

theorem ask_ends {c : Command} (hc : c ≠ .connectIP) (hn : n ≤ 2)
    {yes no : PowerRun σ → Option (PowerRun σ)}
    (hyes : ∀ run, unit.Ready n run → unit.Ends (yes run))
    (hno : ∀ run, unit.Ready n run → unit.Ends (no run)) (h : unit.Ready n run) :
    unit.Ends (unit.ask c yes no run) := by
  have hother : ∀ verdict : Option Bool, (c, verdict) ≠ (.connectIP, some true) :=
    fun verdict heq ↦ hc (Prod.mk.inj heq).1
  unfold ask
  cases hexec : unit.exec c run.line with
  | ok verdict line =>
      have hline : final (unit.exec c run.line) = line := by rw [hexec]; rfl
      cases verdict with
      | true => exact hyes _ (h.record (hother _) hline)
      | false => exact hno _ (h.record (hother _) hline)
  | error e line =>
      have hline : final (unit.exec c run.line) = line := by rw [hexec]; rfl
      exact ⟨_, rfl, (h.record (hother none) hline).abandon hn⟩

theorem onError_ends (hn : n ≤ 2) (h : unit.Ready n run) : unit.Ends (unit.onError run) :=
  ask_ends (by decide) hn (fun _ hrun ↦ ⟨_, rfl, hrun.abandon hn⟩)
    (fun _ hrun ↦ ⟨_, rfl, hrun.abandon hn⟩) h

theorem need_ends {c : Command} (hc : c ≠ .connectIP) (hn : n ≤ 2)
    {next : PowerRun σ → Option (PowerRun σ)}
    (hnext : ∀ run, unit.Ready n run → unit.Ends (next run)) (h : unit.Ready n run) :
    unit.Ends (unit.need c next run) :=
  ask_ends hc hn hnext (fun _ ↦ onError_ends hn) h

theorem connect_ends (hn : n ≤ 2) (h : unit.Ready n run) : unit.Ends (unit.connect run) := by
  unfold connect need ask
  cases hexec : unit.exec .connectIP run.line with
  | ok verdict line =>
      have hline : final (unit.exec .connectIP run.line) = line := by rw [hexec]; rfl
      cases verdict with
      | true =>
          refine ⟨_, rfl, h.passes.trans hn, iff_of_true rfl ?_, rfl, ?_⟩
          · exact List.mem_append_right _ (List.mem_singleton_self _)
          · exact isOpen_close (hline ▸ closable_final .connectIP h.closable)
      | false => exact onError_ends hn (h.record (by decide) hline)
  | error e line =>
      have hline : final (unit.exec .connectIP run.line) = line := by rw [hexec]; rfl
      exact ⟨_, rfl, (h.record (by decide) hline).abandon hn⟩

theorem openContext_ends (hn : n ≤ 2) (h : unit.Ready n run) :
    unit.Ends (unit.openContext run) := by
  have hlast : ∀ run, unit.Ready n run → unit.Ends (unit.need .checkSignalLevel unit.connect run) :=
    fun _ ↦ need_ends (by decide) hn fun _ ↦ connect_ends hn
  unfold openContext
  split_ifs
  · refine need_ends (by decide) hn (fun _ ↦ ?_) h
    refine need_ends (by decide) hn fun _ ↦ ?_
    refine need_ends (by decide) hn fun _ ↦ ?_
    exact need_ends (by decide) hn hlast
  · exact hlast run h

theorem findContext_ends (hn : n ≤ 2) (h : unit.Ready n run) :
    unit.Ends (unit.findContext run) := by
  unfold findContext
  split_ifs
  · refine ask_ends (by decide) hn (fun _ hrun ↦ ?_) (fun _ ↦ ?_) h
    · exact openContext_ends hn ⟨hrun.off, hrun.failed, hrun.closable, hrun.passes⟩
    · exact need_ends (by decide) hn fun _ ↦ openContext_ends hn
  · exact openContext_ends hn h

theorem firstTimeRoutine_ends (hn : n ≤ 2) (h : unit.Ready n run) :
    unit.Ends (unit.firstTimeRoutine run) := by
  have hcheck : ∀ run, unit.Ready n run →
      unit.Ends (unit.need .checkSignalLevel unit.findContext run) :=
    fun _ ↦ need_ends (by decide) hn fun _ ↦ findContext_ends hn
  unfold firstTimeRoutine
  split_ifs
  · exact ask_ends (by decide) hn hcheck hcheck h
  · exact hcheck run h

/-- A pass that finds the modem closed is the last one. -/
theorem powerLoop_ends_of_closed (fuel : ℕ) (h : unit.Ready 1 run)
    (hmodem : run.bModemOpen = false) : unit.Ends (unit.powerLoop (fuel + 1) run) := by
  rw [powerLoop]
  dsimp only
  rw [if_neg (by rw [hmodem]; decide)]
  exact firstTimeRoutine_ends le_rfl
    ⟨h.off, h.failed, h.closable, Nat.succ_le_succ h.passes⟩

/-- Only a first pass with the modem open can lead to a second. -/
theorem powerLoop_ends (fuel : ℕ) (h : unit.Ready 0 run) :
    unit.Ends (unit.powerLoop (fuel + 2) run) := by
  have hcounted : unit.Ready 1 { run with passes := run.passes + 1 } :=
    ⟨h.off, h.failed, h.closable, Nat.succ_le_succ h.passes⟩
  rw [powerLoop]
  dsimp only
  split_ifs with hmodem
  · refine ask_ends (by decide) (by decide) (fun _ ↦ connect_ends (by decide)) (fun run hrun ↦ ?_)
      hcounted
    exact powerLoop_ends_of_closed fuel ⟨hrun.off, hrun.failed, hrun.closable, hrun.passes⟩ rfl
  · exact firstTimeRoutine_ends (by decide) hcounted

/-- A port that could not be opened is not connected, and the descriptor of one that
could is that of its socket. -/
theorem openPort_closable {opens : ℕ → OpenAttempt}
    (hpositive : ∀ i socket, (opens i).outcome = .success socket → 0 < socket) (retry : ℕ)
    {line : σ} (hclosed : (unit.port line).bConnected = false) :
    if (unit.openPort opens retry line).1 then
      0 < (unit.port (unit.openPort opens retry line).2).socketID
    else (unit.port (unit.openPort opens retry line).2).bConnected = false := by
  induction retry generalizing line with
  | zero => exact hclosed
  | succ retry ih =>
      rw [openPort]
      cases hopen : (unit.port line).openRemote (opens retry).socket (opens retry).outcome with
      | mk opened port =>
          cases opened with
          | true =>
              obtain ⟨socket, houtcome, rfl⟩ := TCPPort.openRemote_eq_true hopen
              simp only [if_true, unit.port_setPort]
              exact hpositive retry socket houtcome
          | false =>
              refine ih ?_
              rw [unit.port_setPort, TCPPort.openRemote_bConnected hopen,
                TCPPort.close_bConnected]
              exact Or.inl hclosed

end AtUnit

/-- Whatever the unit answers, `PowerOn` returns within two passes.  The power is on
exactly if `ConnectIP` succeeded, and then the modem is open; a modem that was not
connected through an opened port is closed, and so is the port on every path. -/
theorem powerOn_consistent {σ : Type} (unit : AtUnit σ) (opens : ℕ → OpenAttempt) (fuel : ℕ)
    (bModemOpen : Bool) (line : σ) (hclosed : (unit.port line).bConnected = false)
    (hpositive : ∀ i socket, (opens i).outcome = .success socket → 0 < socket) :
    ∃ run, unit.powerOn opens (fuel + 2) bModemOpen line = some run ∧
      run.passes ≤ 2 ∧
      (run.bPowerOff = false ↔ (Command.connectIP, some true) ∈ run.log) ∧
      (run.bPowerOff = false → run.bModemOpen = true) ∧
      ((unit.openPort opens 3 line).1 = true → run.bPowerOff = true → run.bModemOpen = false) ∧
      (unit.port run.line).isOpen = false := by
  have hport := AtUnit.openPort_closable hpositive 3 hclosed
  unfold AtUnit.powerOn
  dsimp only
  split_ifs at hport ⊢ with hopened
  · have hready : unit.Ready 0
        ⟨true, bModemOpen, true, true, (unit.openPort opens 3 line).2, 0, []⟩ :=
      ⟨rfl, List.not_mem_nil, Or.inr hport, le_rfl⟩
    obtain ⟨run, hrun, hended⟩ := AtUnit.powerLoop_ends fuel hready
    refine ⟨run, hrun, hended.passes, hended.power, fun hon ↦ ?_, fun _ hoff ↦ ?_, hended.port⟩
    · rw [hended.modem, hon]
      rfl
    · rw [hended.modem, hoff]
      rfl
  · refine ⟨_, rfl, Nat.zero_le 2, ?_, fun hon ↦ ?_, fun hopen ↦ absurd hopen hopened, hport⟩
    · exact iff_of_false (fun hon ↦ Bool.noConfusion hon) List.not_mem_nil
    · cases hon

/-- A modem that takes the connection and then stays silent. -/
theorem powerOn_silent :
    ({ freshLine with UT_ATPort := ⟨-1, false⟩ } : AtLine).UT_ATPort.bConnected = false ∧
      ∃ run, (Modem.unit .noFile fun _ _ ↦ true).powerOn (fun _ ↦ ⟨3, .success 3⟩) 2 false
          { freshLine with UT_ATPort := ⟨-1, false⟩ } = some run ∧
        run.passes ≤ 2 ∧
        (run.bPowerOff = false ↔ (Command.connectIP, some true) ∈ run.log) ∧
        (run.bPowerOff = false → run.bModemOpen = true) ∧
        (((Modem.unit .noFile fun _ _ ↦ true).openPort (fun _ ↦ ⟨3, .success 3⟩) 3
          { freshLine with UT_ATPort := ⟨-1, false⟩ }).1 = true →
            run.bPowerOff = true → run.bModemOpen = false) ∧
        run.line.UT_ATPort.isOpen = false := by
  refine ⟨rfl, powerOn_consistent (Modem.unit .noFile fun _ _ ↦ true)
    (fun _ ↦ ⟨3, .success 3⟩) 0 false { freshLine with UT_ATPort := ⟨-1, false⟩ } rfl
    fun _ socket hsocket ↦ ?_⟩
  obtain rfl := ConnectResult.success.inj hsocket
  decide

end DeviceAgent
