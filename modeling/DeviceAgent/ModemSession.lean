import DeviceAgent.ModemPower
import DeviceAgent.Foundations.Transition

/-!
# The modem over many calls

`PowerOff` breaks the connection: it opens the AT port and asks for the disconnection, and
the two loops around the port and around the command share one counter.  Together with
`PowerOn` it makes a machine that is called again and again, with the members as the last
call left them.  The commands `PowerOn` sends keep to an order that the modem relies on.
-/

namespace DeviceAgent

open Procedure

/-! ## Breaking the connection -/

/-- A unit that can also be asked to disconnect. -/
structure ModemUnit (σ : Type) extends AtUnit σ where
  disconnect : EStateM ChannelException σ Bool
  keeps_disconnect : ∀ s, port (final (disconnect s)) = port s ∨
    port (final (disconnect s)) = (port s).close

/-- The length given for this line counts the terminator. -/
def Modem.disconnectIP : AT Bool :=
  exchange (ascii "AT_IAPPPCONNECT=0\r\n".toList ++ [NUL]) 5

def Modem.modemUnit (config : Config) (below : ℤ → List Byte → Bool) : ModemUnit AtLine where
  toAtUnit := Modem.unit config below
  disconnect := Modem.disconnectIP
  keeps_disconnect := keeps_exchange _ _

/-- What `PowerOff` works on: how often it opened the port, and the verdicts on its
commands, nothing for one that threw. -/
structure OffRun (σ : Type) where
  line : σ
  opened : ℕ
  asked : List (Option Bool)

namespace ModemUnit

variable {σ : Type} (unit : ModemUnit σ)

/-- `UT_ATPort.Open()`, whose result is not looked at. -/
def reopen (attempt : OpenAttempt) (run : OffRun σ) : OffRun σ :=
  { run with
    line := unit.setPort ((unit.port run.line).openRemote attempt.socket attempt.outcome).2 run.line
    opened := run.opened + 1 }

/-- The loops of `PowerOff` with `retry` passes left; `opened` if the port has been opened
in this `try` block. -/
def disconnectLoop (opens : ℕ → OpenAttempt) : ℕ → Bool → OffRun σ → OffRun σ
  | 0, _, run => run
  | retry + 1, opened, run =>
      let run := if opened then run else unit.reopen (opens retry) run
      match unit.disconnect run.line with
      | .ok true line => { run with line := line, asked := run.asked ++ [some true] }
      | .ok false line =>
          disconnectLoop opens retry true
            { run with line := line, asked := run.asked ++ [some false] }
      | .error _ line =>
          disconnectLoop opens retry false
            { run with line := line, asked := run.asked ++ [none] }

def powerOff (opens : ℕ → OpenAttempt) (line : σ) : OffRun σ :=
  let run := unit.disconnectLoop opens 5 false ⟨line, 0, []⟩
  { run with line := unit.close run.line }

variable {unit} {opens : ℕ → OpenAttempt}

/-- Closing the port will disconnect it. -/
def Closable (unit : ModemUnit σ) (line : σ) : Prop :=
  (unit.port line).bConnected = false ∨ 0 < (unit.port line).socketID

/-- The descriptors the system gives are positive. -/
def Positive (opens : ℕ → OpenAttempt) : Prop :=
  ∀ i socket, (opens i).outcome = .success socket → 0 < socket

theorem Closable.reopen {run : OffRun σ} (h : unit.Closable run.line) (hpositive : Positive opens)
    (retry : ℕ) : unit.Closable (unit.reopen (opens retry) run).line := by
  unfold Closable ModemUnit.reopen
  dsimp only
  rw [unit.port_setPort]
  cases hopen : (unit.port run.line).openRemote (opens retry).socket (opens retry).outcome with
  | mk verdict port =>
      cases verdict with
      | true =>
          obtain ⟨socket, houtcome, rfl⟩ := TCPPort.openRemote_eq_true hopen
          exact Or.inr (hpositive retry socket houtcome)
      | false =>
          refine Or.inl ?_
          rw [TCPPort.openRemote_bConnected hopen]
          exact (TCPPort.close_bConnected _).mpr h

theorem Closable.disconnect {line : σ} (h : unit.Closable line) :
    unit.Closable (final (unit.disconnect line)) := by
  unfold Closable
  rcases unit.keeps_disconnect line with hsame | hclosed
  · rw [hsame]
    exact h
  · rw [hclosed]
    exact Or.inl ((TCPPort.close_bConnected _).mpr h)

/-- What `retry` more passes add to a run in which nothing has succeeded. -/
structure Tried (unit : ModemUnit σ) (retry : ℕ) (before after : OffRun σ) : Prop where
  closable : unit.Closable after.line
  opened : after.opened ≤ before.opened + retry
  more : ∃ verdicts, after.asked = before.asked ++ verdicts ∧ verdicts.length ≤ retry ∧
    (0 < retry → verdicts ≠ []) ∧ some true ∉ verdicts.dropLast

theorem Tried.after_failure {retry : ℕ} {before middle after : OffRun σ}
    (h : unit.Tried retry middle after) (verdict : Option Bool)
    (hopened : middle.opened ≤ before.opened + 1)
    (hasked : middle.asked = before.asked ++ [verdict]) (hfailed : verdict ≠ some true) :
    unit.Tried (retry + 1) before after := by
  obtain ⟨verdicts, heq, hlen, -, hfirst⟩ := h.more
  have hafter := h.opened
  refine ⟨h.closable, by omega, verdict :: verdicts, by simp [heq, hasked], by simp [hlen],
    by simp, ?_⟩
  cases verdicts with
  | nil => simp
  | cons next rest =>
      rw [List.dropLast_cons_cons, List.mem_cons, not_or]
      exact ⟨Ne.symm hfailed, hfirst⟩

theorem disconnectLoop_tried (hpositive : Positive opens) (retry : ℕ) (opened : Bool)
    (run : OffRun σ) (h : unit.Closable run.line) :
    unit.Tried retry run (unit.disconnectLoop opens retry opened run) := by
  induction retry generalizing opened run with
  | zero => exact ⟨h, le_rfl, [], by simp [disconnectLoop]⟩
  | succ retry ih =>
      obtain ⟨run', hrun', hopened, hasked, hclosable⟩ : ∃ run', run' =
          (if opened then run else unit.reopen (opens retry) run) ∧
            run'.opened ≤ run.opened + 1 ∧ run'.asked = run.asked ∧ unit.Closable run'.line := by
        refine ⟨_, rfl, ?_⟩
        split_ifs
        · exact ⟨Nat.le_succ _, rfl, h⟩
        · exact ⟨le_rfl, rfl, h.reopen hpositive retry⟩
      have hafter := hclosable.disconnect
      rw [disconnectLoop, ← hrun']
      cases hexec : unit.disconnect run'.line with
      | ok verdict line =>
          rw [hexec] at hafter
          cases verdict with
          | true =>
              exact ⟨hafter, hopened.trans (by omega), [some true], by simp [hasked], by simp,
                by simp, by simp⟩
          | false =>
              exact (ih true _ hafter).after_failure (some false) hopened (by simp [hasked])
                (by simp)
      | error e line =>
          rw [hexec] at hafter
          exact (ih false _ hafter).after_failure none hopened (by simp [hasked]) (by simp)

theorem isOpen_powerOff (hpositive : Positive opens) {line : σ} (h : unit.Closable line) :
    (unit.port (unit.powerOff opens line).line).isOpen = false :=
  AtUnit.isOpen_close (disconnectLoop_tried hpositive 5 false ⟨line, 0, []⟩ h).closable

/-- A modem without a configuration file, on a port not yet opened. -/
def plain : ModemUnit AtLine := Modem.modemUnit .noFile fun _ _ ↦ true

def closedLine : AtLine := { freshLine with UT_ATPort := ⟨-1, false⟩ }

/-- A port not yet opened on which `OK` will be answered so many times. -/
def agreeingLine (oks : ℕ) : AtLine :=
  { closedLine with recvs := List.replicate oks (.data ⟨okTag, by decide, by decide⟩) }

def takesAll (_ : ℕ) : OpenAttempt := ⟨3, .success 3⟩

theorem positive_takesAll : Positive takesAll := by
  intro _ socket hsocket
  obtain rfl := ConnectResult.success.inj hsocket
  decide

end ModemUnit

/-! ## Calls in any order -/

/-- The members of `Modem` between two calls. -/
structure ModemState (σ : Type) where
  bPowerOff : Bool
  bModemOpen : Bool
  line : σ

namespace ModemState

variable {σ : Type} (unit : ModemUnit σ)

/-- The members as the constructor leaves them. -/
def start (line : σ) : ModemState σ := ⟨true, false, line⟩

inductive Call
  | powerOn (opens : ℕ → OpenAttempt)
  | powerOff (opens : ℕ → OpenAttempt)

def Call.opens : Call → ℕ → OpenAttempt
  | .powerOn opens => opens
  | .powerOff opens => opens

/-- A call; there is none behind it if it does not return. -/
def step (s : ModemState σ) : Call → Option (ModemState σ)
  | .powerOn opens =>
      (unit.powerOn opens 2 s.bModemOpen s.line).map fun run ↦
        ⟨run.bPowerOff, run.bModemOpen, run.line⟩
  | .powerOff opens => some ⟨true, s.bModemOpen, (unit.powerOff opens s.line).line⟩

structure Rested (s : ModemState σ) : Prop where
  closed : (unit.port s.line).isOpen = false
  power : s.bPowerOff = false → s.bModemOpen = true

variable {unit}

theorem powerOn_rested {opens : ℕ → OpenAttempt} (hpositive : ModemUnit.Positive opens)
    (bModemOpen : Bool) {line : σ} (hclosed : (unit.port line).isOpen = false) :
    ∃ run, unit.powerOn opens 2 bModemOpen line = some run ∧
      Rested unit ⟨run.bPowerOff, run.bModemOpen, run.line⟩ := by
  have hport := AtUnit.openPort_closable hpositive 3 hclosed
  unfold AtUnit.powerOn
  dsimp only
  split_ifs at hport ⊢ with hopened
  · have hready : unit.Ready 0
        ⟨true, bModemOpen, true, true, (unit.openPort opens 3 line).2, 0, []⟩ :=
      ⟨rfl, List.not_mem_nil, Or.inr hport, le_rfl⟩
    obtain ⟨run, hrun, hended⟩ := AtUnit.powerLoop_ends 0 hready
    refine ⟨run, hrun, hended.port, fun hon ↦ ?_⟩
    have hoff : run.bPowerOff = false := hon
    rw [hended.modem, hoff]
    rfl
  · exact ⟨_, rfl, hport, fun hon ↦ Bool.noConfusion hon⟩

theorem Rested.step {s : ModemState σ} (h : Rested unit s) (call : Call)
    (hpositive : ModemUnit.Positive call.opens) :
    ∃ s', s.step unit call = some s' ∧ Rested unit s' := by
  cases call with
  | powerOn opens =>
      obtain ⟨run, hrun, hrested⟩ := powerOn_rested hpositive s.bModemOpen h.closed
      exact ⟨_, Option.map_eq_some_iff.mpr ⟨run, hrun, rfl⟩, hrested⟩
  | powerOff opens =>
      exact ⟨_, rfl, ModemUnit.isOpen_powerOff hpositive (Or.inl h.closed),
        fun hon ↦ Bool.noConfusion hon⟩

/-- A modem without a configuration file and with a signal that is always sufficient. -/
def strong : ModemUnit AtLine := Modem.modemUnit .noFile fun _ _ ↦ false

end ModemState

/-! ## The order of the commands -/

/-- What `PowerOn` may ask after what it has asked before: a context is built up step by
step behind a sufficient signal, the connection is asked for only when the context has
been seen, and the reset follows a refusal. -/
def Permitted (history : List (Command × Option Bool)) : Command → Prop
  | .echoOff => history = []
  | .checkSignalLevel => ∃ verdict, history.getLast? = some (.echoOff, some verdict) ∨
      history.getLast? = some (.checkContext, some verdict)
  | .checkContext => history = [] ∨ history.getLast? = some (.checkSignalLevel, some true) ∨
      history.getLast? = some (.logonIP, some true)
  | .uT_PowerOn => history.getLast? = some (.checkSignalLevel, some true)
  | .attachNet => history.getLast? = some (.uT_PowerOn, some true)
  | .logonIP => history.getLast? = some (.attachNet, some true)
  | .connectIP => (.checkContext, some true) ∈ history ∧
      (history = [(.checkContext, some true)] ∨
        history.getLast? = some (.checkSignalLevel, some true))
  | .uT_Reset => ∃ c, history.getLast? = some (c, some false)

namespace AtUnit

variable {σ : Type} {unit : AtUnit σ} {run : PowerRun σ}

abbrev Ordered (log : List (Command × Option Bool)) : Prop :=
  Follows (fun history entry ↦ Permitted history entry.1) log

/-- On return, if there is one, the commands were in order. -/
def Lawful (result : Option (PowerRun σ)) : Prop := ∀ run, result = some run → Ordered run.log

theorem ask_lawful {c : Command} {yes no : PowerRun σ → Option (PowerRun σ)}
    (h : Ordered run.log) (hc : Permitted run.log c)
    (hyes : ∀ line, Ordered (run.log ++ [(c, some true)]) →
      Lawful (yes { run with line := line, log := run.log ++ [(c, some true)] }))
    (hno : ∀ line, Ordered (run.log ++ [(c, some false)]) →
      Lawful (no { run with line := line, log := run.log ++ [(c, some false)] })) :
    Lawful (unit.ask c yes no run) := by
  have hlogged : ∀ verdict, Ordered (run.log ++ [(c, verdict)]) := fun verdict ↦ h.snoc hc
  unfold ask
  cases hexec : unit.exec c run.line with
  | ok verdict line =>
      cases verdict with
      | true => exact hyes line (hlogged _)
      | false => exact hno line (hlogged _)
  | error e line =>
      rintro run' heq
      obtain rfl := Option.some.inj heq
      exact hlogged none

theorem onError_lawful (h : Ordered run.log) {c : Command}
    (hlast : run.log.getLast? = some (c, some false)) : Lawful (unit.onError run) := by
  have habandon : ∀ line verdict, Ordered (run.log ++ [(.uT_Reset, some verdict)]) →
      Lawful (some (unit.abandon
        { run with line := line, log := run.log ++ [(.uT_Reset, some verdict)] })) := by
    intro line verdict hlogged run' heq
    obtain rfl := Option.some.inj heq
    exact hlogged
  exact ask_lawful h ⟨c, hlast⟩ (fun line ↦ habandon line true) fun line ↦ habandon line false

theorem need_lawful {c : Command} {next : PowerRun σ → Option (PowerRun σ)} (h : Ordered run.log)
    (hc : Permitted run.log c)
    (hnext : ∀ line, Ordered (run.log ++ [(c, some true)]) →
      Lawful (next { run with line := line, log := run.log ++ [(c, some true)] })) :
    Lawful (unit.need c next run) :=
  ask_lawful h hc hnext fun _ hlogged ↦ onError_lawful hlogged List.getLast?_concat

theorem connect_lawful (h : Ordered run.log) (hc : Permitted run.log .connectIP) :
    Lawful (unit.connect run) := by
  refine need_lawful h hc fun line hlogged run' heq ↦ ?_
  obtain rfl := Option.some.inj heq
  exact hlogged

/-- With the context in place only the signal is looked at once more. -/
theorem lastCheck_lawful (h : Ordered run.log)
    (hlast : run.log.getLast? = some (.checkContext, some true)) :
    Lawful (unit.need .checkSignalLevel unit.connect run) := by
  refine need_lawful h ⟨true, Or.inr hlast⟩ fun line hlogged ↦ connect_lawful hlogged ?_
  exact ⟨List.mem_append_left _ (List.mem_of_mem_getLast? hlast), Or.inr List.getLast?_concat⟩

theorem openContext_lawful (h : Ordered run.log)
    (hlast : if run.bOpenContext then run.log.getLast? = some (.checkSignalLevel, some true)
      else run.log.getLast? = some (.checkContext, some true)) :
    Lawful (unit.openContext run) := by
  unfold openContext
  split_ifs at hlast ⊢ with hopen
  · refine need_lawful h hlast fun _ hpower ↦ ?_
    refine need_lawful hpower List.getLast?_concat fun _ hattach ↦ ?_
    refine need_lawful hattach List.getLast?_concat fun _ hlogon ↦ ?_
    refine need_lawful hlogon (Or.inr (Or.inr List.getLast?_concat)) fun _ hcontext ↦ ?_
    exact lastCheck_lawful hcontext List.getLast?_concat
  · exact lastCheck_lawful h hlast

theorem findContext_lawful (h : Ordered run.log)
    (hlast : run.log.getLast? = some (.checkSignalLevel, some true))
    (hopen : run.bOpenContext = true) : Lawful (unit.findContext run) := by
  unfold findContext
  split_ifs
  · refine ask_lawful h (Or.inr (Or.inl hlast)) (fun _ hfound ↦ ?_) fun _ hmissing ↦ ?_
    · exact openContext_lawful hfound (by simp)
    · refine need_lawful hmissing ⟨false, Or.inr List.getLast?_concat⟩ fun _ hsignal ↦ ?_
      exact openContext_lawful hsignal (by simp [hopen])
  · exact openContext_lawful h (by simpa [hopen] using hlast)

theorem checkSignal_lawful (h : Ordered run.log) (hc : Permitted run.log .checkSignalLevel)
    (hopen : run.bOpenContext = true) :
    Lawful (unit.need .checkSignalLevel unit.findContext run) :=
  need_lawful h hc fun _ hsignal ↦ findContext_lawful hsignal List.getLast?_concat hopen

theorem powerLoop_lawful (fuel : ℕ) (h : Ordered run.log) (hopen : run.bOpenContext = true)
    (hstage : run.log = [] ∧ run.bModemOnFirstTime = true ∨
      run.log.getLast? = some (.checkContext, some false) ∧ run.bModemOnFirstTime = false ∧
        run.bModemOpen = false) :
    Lawful (unit.powerLoop fuel run) := by
  induction fuel generalizing run with
  | zero =>
      intro run' heq
      cases heq
  | succ fuel ih =>
      rw [powerLoop]
      dsimp only
      rcases hstage with ⟨hlog, hfirst⟩ | ⟨hlast, hfirst, hmodem⟩
      · split_ifs with hmodem
        · refine ask_lawful h (Or.inl hlog) (fun _ hfound ↦ ?_) fun _ hmissing ↦ ?_
          · refine connect_lawful hfound ?_
            rw [hlog]
            exact ⟨List.mem_singleton_self _, Or.inl rfl⟩
          · exact ih hmissing hopen (Or.inr ⟨List.getLast?_concat, rfl, rfl⟩)
        · unfold firstTimeRoutine
          rw [if_pos hfirst]
          refine ask_lawful h hlog (fun _ hecho ↦ ?_) fun _ hecho ↦ ?_
          · exact checkSignal_lawful hecho ⟨true, Or.inl List.getLast?_concat⟩ hopen
          · exact checkSignal_lawful hecho ⟨false, Or.inl List.getLast?_concat⟩ hopen
      · rw [if_neg (by rw [hmodem]; decide)]
        unfold firstTimeRoutine
        rw [if_neg (by rw [hfirst]; decide)]
        exact checkSignal_lawful h ⟨false, Or.inr hlast⟩ hopen

end AtUnit

/-- Whatever the unit answers, every command of a call of `PowerOn` was permitted by the
commands and verdicts before it. -/
theorem powerOn_in_order {σ : Type} (unit : AtUnit σ) (opens : ℕ → OpenAttempt) (fuel : ℕ)
    (bModemOpen : Bool) (line : σ) (run : PowerRun σ)
    (hrun : unit.powerOn opens fuel bModemOpen line = some run)
    (before after : List (Command × Option Bool)) (c : Command) (verdict : Option Bool)
    (hlog : run.log = before ++ (c, verdict) :: after) : Permitted before c := by
  have hordered : AtUnit.Ordered run.log := by
    unfold AtUnit.powerOn at hrun
    dsimp only at hrun
    split_ifs at hrun
    · exact AtUnit.powerLoop_lawful fuel .nil rfl (Or.inl ⟨rfl, rfl⟩) run hrun
    · obtain rfl := Option.some.inj hrun
      exact .nil
  rw [hlog] at hordered
  exact hordered.permitted

theorem powerOn_in_order_connected :
    ∃ run, ModemUnit.plain.powerOn ModemUnit.takesAll 2 true (ModemUnit.agreeingLine 2) = some run ∧
      run.log = [(.checkContext, some true)] ++ (.connectIP, some true) :: [] ∧
      Permitted [(.checkContext, some true)] .connectIP := by
  have hlog : (ModemUnit.plain.powerOn ModemUnit.takesAll 2 true
      (ModemUnit.agreeingLine 2)).any (fun run ↦
        run.log = [(.checkContext, some true)] ++ (.connectIP, some true) :: []) = true := by
    decide
  cases hrun : ModemUnit.plain.powerOn ModemUnit.takesAll 2 true (ModemUnit.agreeingLine 2) with
  | none =>
      rw [hrun] at hlog
      cases hlog
  | some run =>
      rw [hrun] at hlog
      have heq := of_decide_eq_true hlog
      exact ⟨run, rfl, heq,
        powerOn_in_order _ _ 2 true (ModemUnit.agreeingLine 2) run hrun _ _ _ _ heq⟩

end DeviceAgent
