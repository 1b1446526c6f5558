import DeviceAgent.SignalLevel

/-!
# AT commands

The commands `PowerOn` sends, byte for byte.  Each of them writes a line, up to three
times, and waits for `OK`.  Whatever comes back, the port is afterwards as it was before
or closed.
-/

namespace DeviceAgent

open Procedure

/-! ## Writing and waiting -/

namespace AtLine

/-- `UT_ATPort.Write`. -/
def write (text : List Byte) : AT Unit := fun line ↦
  match line.UT_ATPort.write (line.sends.headD .sent) with
  | none => .ok () { line with sends := line.sends.tail, written := line.written ++ [text] }
  | some e => .error e line

/-- The clock readings of the next loop that looks at the clock. -/
def clock : AT (List ℤ) := fun line ↦
  .ok (line.clocks.headD []) { line with clocks := line.clocks.tail }

end AtLine

def okTag : List Byte := ascii ['O', 'K']

/-- A command line and the wait for its `OK`. -/
def exchange (text : List Byte) (timeout : ℤ) : AT Bool := do
  AtLine.write text
  waitATResponse okTag timeout true (← AtLine.clock)

/-- The loop of three attempts that only asks for `OK`. -/
def insist (text : List Byte) (timeout : ℤ) : AT Bool :=
  attempts (do return if ← exchange text timeout then some true else none) false 3

/-! ## The commands -/

namespace Modem

variable (config : Config)

/-- `ATE0`, which nobody waits for. -/
def echoOff : AT Bool := exchange (ascii "ATE0\r\n".toList) 5

def uT_Reset : AT Bool := exchange (ascii "AT+CFUN=1,1\r\n".toList) 5

/-- What `snprintf` leaves in the buffer of 256 bytes. -/
def contextText : List Byte :=
  (ascii "AT+CGDCONT=10,\"IP\",\"".toList ++ config.getAPN ++ ascii "\",\"".toList ++
    config.getIP ++ ascii "\",0,0,\"".toList ++ config.getUserName ++ ascii "\",\"".toList ++
    config.getPassword ++ ascii "\"\r\n".toList).take 255

def logonIP : AT Bool := insist (contextText config) 5

def checkContext : AT Bool :=
  attempts (do
    AtLine.write (ascii "AT+CGDCONT?\r\n".toList)
    modify AtLine.clear
    if ← waitATResponse okTag 5 true (← AtLine.clock) then
      let strCache := (← get).strCache
      return some (config.getUserName <:+: strCache ∧ config.getIP <:+: strCache)
    else return none) false 3

def connectIP : AT Bool := do
  modify AtLine.clear
  attempts (do
    if ← exchange (ascii "AT_IAPPPCONNECT=1,10\r\n".toList) config.getModemDelay then
      return some true
    else if errorTag <:+: (← get).strCache then return some false
    else return none) false 3

/-- The length given for this line counts the terminator. -/
def uT_PowerOn : AT Bool :=
  insist (ascii "AT_IPOINT=1\r\n".toList ++ [NUL]) config.getModemDelay

def attachNet : AT Bool :=
  attempts (do
    if ← exchange (ascii "AT+CGATT?\r\n".toList) 5 then
      return if ascii "+CGATT: 1,3".toList <:+: (← get).strCache then some true else none
    else return none) false 3

def openSignalLevel : AT Bool := insist (ascii "AT_ISIG=1\r\n".toList) 5

def closeSignalLevel : AT Bool := insist (ascii "AT_ISIG=0\r\n".toList) 5

/-- One look at the level; `below` is `atof(text) < minSIG`, and the text of the 0.0 that
is no level is the empty one. -/
def levelPass (below : List Byte → Bool) : AT Bool := do
  let level ← getSignalLevel (← AtLine.clock) (← AtLine.clock)
  if below (level.getD []) then
    modify AtLine.clear
    return false
  else return true

def levelLoop (below : List Byte → Bool) (maxCheckTime : ℤ) : List ℤ → AT Bool
  | [] => levelPass below
  | diff :: readings => do
      if ← levelPass below then return true
      else if diff < maxCheckTime then levelLoop below maxCheckTime readings
      else return false

def checkSignalLevel (below : ℤ → List Byte → Bool) : AT Bool := do
  if ← openSignalLevel then
    let ret ← levelLoop (below config.getMinSignalLevel) config.getModemDelay (← AtLine.clock)
    return (← closeSignalLevel) && ret
  else return false

end Modem

/-! ## What the commands do to the port -/

/-- The port is as it was, or closed. -/
def PortKept (before after : AtLine) : Prop :=
  after.UT_ATPort = before.UT_ATPort ∨ after.UT_ATPort = before.UT_ATPort.close

theorem TCPPort.close_close (port : TCPPort) : port.close.close = port.close := by
  unfold close
  split_ifs with hpos <;> simp

instance : Std.Refl PortKept := ⟨fun _ ↦ Or.inl rfl⟩

instance : IsTrans AtLine PortKept := ⟨fun a b c hab hbc ↦ by
  rcases hab with hab | hab <;> rcases hbc with hbc | hbc
  · exact Or.inl (hbc.trans hab)
  · exact Or.inr (by rw [hbc, hab])
  · exact Or.inr (hbc.trans hab)
  · exact Or.inr (by rw [hbc, hab, TCPPort.close_close])⟩

theorem keeps_read : Keeps PortKept AtLine.read := by
  intro line
  unfold AtLine.read
  split_ifs
  · cases line.recvs.headD .again with
    | data piece => exact Or.inl rfl
    | again => exact Or.inl rfl
    | closed => exact Or.inr rfl
    | error err => exact Or.inl rfl
  · exact Or.inl rfl

theorem keeps_write (text : List Byte) : Keeps PortKept (AtLine.write text) := by
  intro line
  unfold AtLine.write
  cases line.UT_ATPort.write (line.sends.headD .sent) with
  | none => exact Or.inl rfl
  | some e => exact Or.inl rfl

theorem keeps_clock : Keeps PortKept AtLine.clock := fun _ ↦ Or.inl rfl

theorem keeps_clear : Keeps PortKept (modify AtLine.clear : AT Unit) := fun _ ↦ Or.inl rfl

theorem keeps_waitPass (szWait : List Byte) : Keeps PortKept (waitPass szWait) :=
  .bind keeps_read fun _ ↦ .bind (.modify fun _ ↦ Or.inl rfl) fun _ ↦
    .bind .get fun _ ↦ .pure _

theorem keeps_waitLoop (szWait : List Byte) (timeout : ℤ) (readings : List ℤ) :
    Keeps PortKept (waitLoop szWait timeout readings) := by
  induction readings with
  | nil => exact .bind (keeps_waitPass szWait) fun _ ↦ .pure _
  | cons diff readings ih =>
      refine .bind (keeps_waitPass szWait) fun answer ↦ ?_
      cases answer with
      | some result => exact .pure result
      | none =>
          dsimp only
          split_ifs
          · exact .pure false
          · exact ih

theorem keeps_waitATResponse (szWait : List Byte) (timeout : ℤ) (bClear : Bool)
    (readings : List ℤ) : Keeps PortKept (waitATResponse szWait timeout bClear readings) := by
  cases bClear with
  | true => exact .bind keeps_clear fun _ ↦ keeps_waitLoop szWait timeout readings
  | false => exact keeps_waitLoop szWait timeout readings

theorem keeps_exchange (text : List Byte) (timeout : ℤ) : Keeps PortKept (exchange text timeout) :=
  .bind (keeps_write text) fun _ ↦ .bind keeps_clock fun _ ↦ keeps_waitATResponse _ _ _ _

theorem keeps_insist (text : List Byte) (timeout : ℤ) : Keeps PortKept (insist text timeout) :=
  .attempts (.bind (keeps_exchange text timeout) fun _ ↦ .pure _) false 3

theorem keeps_getSignalLevel (tagReadings lineReadings : List ℤ) :
    Keeps PortKept (getSignalLevel tagReadings lineReadings) := by
  refine .bind (keeps_waitATResponse _ _ _ _) fun tagged ↦ ?_
  cases tagged with
  | false => exact .pure none
  | true =>
      refine .bind (keeps_waitATResponse _ _ _ _) fun ended ↦ ?_
      cases ended with
      | false => exact .pure none
      | true => exact .bind .get fun _ ↦ .bind (.modify fun _ ↦ Or.inl rfl) fun _ ↦ .pure _

namespace Modem

theorem keeps_checkContext (config : Config) : Keeps PortKept (checkContext config) := by
  refine .attempts (.bind (keeps_write _) fun _ ↦ .bind keeps_clear fun _ ↦
    .bind keeps_clock fun readings ↦ .bind (keeps_waitATResponse _ _ _ _) fun answered ↦ ?_) false 3
  cases answered with
  | true => exact .bind .get fun _ ↦ .pure _
  | false => exact .pure none

theorem keeps_connectIP (config : Config) : Keeps PortKept (connectIP config) := by
  refine .bind keeps_clear fun _ ↦ .attempts (.bind (keeps_exchange _ _) fun answered ↦ ?_) false 3
  cases answered with
  | true => exact .pure (some true)
  | false =>
      refine .bind .get fun line ↦ ?_
      split_ifs
      · exact .pure (some false)
      · exact .pure none

theorem keeps_attachNet : Keeps PortKept attachNet := by
  refine .attempts (.bind (keeps_exchange _ _) fun answered ↦ ?_) false 3
  cases answered with
  | true => exact .bind .get fun _ ↦ .pure _
  | false => exact .pure none

theorem keeps_levelPass (below : List Byte → Bool) : Keeps PortKept (levelPass below) := by
  refine .bind keeps_clock fun _ ↦ .bind keeps_clock fun _ ↦
    .bind (keeps_getSignalLevel _ _) fun level ↦ ?_
  split_ifs
  · exact .bind keeps_clear fun _ ↦ .pure false
  · exact .pure true

theorem keeps_levelLoop (below : List Byte → Bool) (maxCheckTime : ℤ) (readings : List ℤ) :
    Keeps PortKept (levelLoop below maxCheckTime readings) := by
  induction readings with
  | nil => exact keeps_levelPass below
  | cons diff readings ih =>
      refine .bind (keeps_levelPass below) fun enough ↦ ?_
      split_ifs
      · exact .pure true
      · exact ih
      · exact .pure false

theorem keeps_checkSignalLevel (config : Config) (below : ℤ → List Byte → Bool) :
    Keeps PortKept (checkSignalLevel config below) := by
  refine .bind (keeps_insist _ _) fun opened ↦ ?_
  cases opened with
  | false => exact .pure false
  | true =>
      exact .bind keeps_clock fun readings ↦ .bind (keeps_levelLoop _ _ readings) fun _ ↦
        .bind (keeps_insist _ _) fun _ ↦ .pure _

end Modem

end DeviceAgent
