import DeviceAgent.AckCodec
import DeviceAgent.FrameCodec
import DeviceAgent.SendCurrentData

/-!
# Negotiating a channel

`negoiateChannel` opens one of two ports of the server, waits for a command and
answers it with an acknowledgement.  It takes any bytes the receiver leaves for
an assignment: the exception of an interrupted frame is swallowed, and the
command is not looked at.  Its two callers connect to the port assigned, three
times at most, and then negotiate once more without using the result.
-/

namespace DeviceAgent

open CommunicationCommand

def Packet.getAssignedPort (p : Packet) : Word := if p.getSize < 1 then 0 else p.wordAt 5

/-! ## One pass of the loop -/

structure PassInput where
  socket : ℤ
  connected : ConnectResult
  /-- Bytes lying in the storage of the freshly constructed `cmd`. -/
  residue : List Byte
  received : List Recv
  /-- The byte behind the empty literal at the end of `cmdWord`. -/
  behind : Byte
  written : SendResult
  deriving DecidableEq, Repr

structure Negotiator where
  nStartPort : ℕ
  startPort : ℕ
  retry : ℕ
  retryData : ℕ
  port : TCPPort
  /-- The ports `Open` was called with. -/
  opens : List ℕ
  /-- What the receiver left on the last connection opened. -/
  received : Option Packet
  /-- The acknowledgements handed to `Write`, with the exception swallowed. -/
  acks : List (List Byte × Option ChannelException)
  returned : Option Word
  deriving DecidableEq, Repr

/-- The packet `cmd` after `ReceiveFrameFrom` on a connection with this socket. -/
def PassInput.got (i : PassInput) (socket : ℤ) : Received × TCPPort :=
  (TCPPort.mk socket true).receiveFrame ⟨[], i.residue⟩ i.received

namespace Negotiator

def start (nStartPort : ℕ) (port : TCPPort) : Negotiator :=
  ⟨nStartPort, nStartPort, 0, 0, port, [], none, [], none⟩

def toggled (s : Negotiator) : ℕ :=
  if s.startPort = s.nStartPort then s.startPort + 1 else s.nStartPort

/-- Behind the call of `Open`, which leaves the port object like this. -/
def afterOpen (s : Negotiator) (port : TCPPort) : Negotiator :=
  { s with port := port, opens := s.opens ++ [s.startPort] }

def notOpened (s : Negotiator) : Negotiator :=
  let s := { s with retry := s.retry + 1 }
  if s.retry = 6 then { s with returned := some 0 }
  else if s.retry % 3 = 0 then { s with startPort := s.toggled }
  else s

def noCommand (s : Negotiator) : Negotiator :=
  let s := { s with retryData := s.retryData + 1 }
  if s.retryData = 4 then { s with returned := some 0 }
  else { s with startPort := s.toggled }

def acknowledge (machine : Byte) (i : PassInput) (cmd : Packet) (s : Negotiator) : Negotiator :=
  let ack := (Packet.mk [] []).ack i.behind true machine cmd.commandType cmd.getAssignedPort
  { s with
    acks := s.acks ++ [(ack.strCache, s.port.write i.written)]
    port := s.port.close
    returned := some cmd.getAssignedPort }

def heard (s : Negotiator) (r : Received × TCPPort) : Negotiator :=
  { s with port := r.2, retry := 0, received := some r.1.packet }

def opened (machine : Byte) (i : PassInput) (s : Negotiator) : Negotiator :=
  let r := s.port.receiveFrame ⟨[], i.residue⟩ i.received
  if r.1.packet.getSize = 0 then (s.heard r).noCommand
  else (s.heard r).acknowledge machine i r.1.packet

def pass (machine : Byte) (i : PassInput) (s : Negotiator) : Negotiator :=
  match s.returned with
  | some _ => s
  | none =>
      match s.port.openRemote i.socket i.connected with
      | (false, port) => (s.afterOpen port).notOpened
      | (true, port) => (s.afterOpen port).opened machine i

end Negotiator

/-! ## What a pass can do -/

def PassInput.Opens (i : PassInput) (socket : ℤ) : Prop :=
  0 ≤ i.socket ∧ i.connected = .success socket

theorem TCPPort.openRemote_cases (port : TCPPort) (i : PassInput) :
    (∃ socket, i.Opens socket ∧ port.openRemote i.socket i.connected = (true, ⟨socket, true⟩)) ∨
      ((∀ socket, ¬ i.Opens socket) ∧
        ∃ port', port.openRemote i.socket i.connected = (false, port')) := by
  by_cases hsocket : i.socket < 0
  · refine Or.inr ⟨fun _ hopens ↦ absurd hopens.1 (by omega),
      { port.close with socketID := i.socket }, ?_⟩
    simp only [openRemote, hsocket, if_true]
  · have hnonneg : 0 ≤ i.socket := by omega
    simp only [openRemote, hsocket, if_false, PassInput.Opens]
    cases hconnected : i.connected with
    | success socket => exact Or.inl ⟨socket, ⟨hnonneg, rfl⟩, rfl⟩
    | unresolved => exact Or.inr ⟨by simp, _, rfl⟩
    | refused => exact Or.inr ⟨by simp, _, rfl⟩

namespace Negotiator

theorem pass_returned {machine : Byte} {i : PassInput} {s : Negotiator}
    (hs : s.returned ≠ none) : s.pass machine i = s := by
  obtain ⟨p, hp⟩ := Option.ne_none_iff_exists'.mp hs
  simp [pass, hp]

theorem pass_cases (machine : Byte) (i : PassInput) {s : Negotiator} (hs : s.returned = none) :
    ((∀ socket, ¬ i.Opens socket) ∧ ∃ port, s.pass machine i = (s.afterOpen port).notOpened) ∨
      ∃ socket, i.Opens socket ∧
        (((i.got socket).1.packet.strCache = [] ∧
            s.pass machine i =
              ((s.afterOpen ⟨socket, true⟩).heard (i.got socket)).noCommand) ∨
          ((i.got socket).1.packet.strCache ≠ [] ∧
            s.pass machine i = ((s.afterOpen ⟨socket, true⟩).heard (i.got socket)).acknowledge
              machine i (i.got socket).1.packet)) := by
  rcases s.port.openRemote_cases i with ⟨socket, hopens, heq⟩ | ⟨hnever, port, heq⟩
  · have hpass : s.pass machine i = (s.afterOpen ⟨socket, true⟩).opened machine i := by
      simp [pass, hs, heq]
    refine Or.inr ⟨socket, hopens, ?_⟩
    rw [hpass, opened]
    by_cases hempty : (i.got socket).1.packet.strCache = []
    · have hsize : (i.got socket).1.packet.getSize = 0 := by simp [Packet.getSize, hempty]
      exact Or.inl ⟨hempty, if_pos hsize⟩
    · have hsize : (i.got socket).1.packet.getSize ≠ 0 := by simpa [Packet.getSize] using hempty
      exact Or.inr ⟨hempty, if_neg hsize⟩
  · exact Or.inl ⟨hnever, port, by simp [pass, hs, heq]⟩

/-- Nothing is acknowledged, and the call goes on or gives up. -/
structure Quiet (s s' : Negotiator) : Prop where
  acks : s'.acks = s.acks
  returned : s'.returned = s.returned ∨ s'.returned = some 0

theorem quiet_notOpened (s : Negotiator) : Quiet s s.notOpened := by
  unfold notOpened
  dsimp only
  split_ifs
  · exact ⟨rfl, Or.inr rfl⟩
  · exact ⟨rfl, Or.inl rfl⟩
  · exact ⟨rfl, Or.inl rfl⟩

theorem quiet_noCommand (s : Negotiator) : Quiet s s.noCommand := by
  unfold noCommand
  dsimp only
  split_ifs
  · exact ⟨rfl, Or.inr rfl⟩
  · exact ⟨rfl, Or.inl rfl⟩

/-! ## The call returns -/

structure Bounded (s : Negotiator) : Prop where
  retry : s.returned = none → s.retry < 6
  retryData : s.returned = none → s.retryData < 4
  silent : s.returned = none → s.acks = []

def rank (s : Negotiator) : ℕ :=
  if s.returned = none then 6 * (4 - s.retryData) - s.retry else 0

theorem bounded_of_returned {s : Negotiator} (hs : s.returned ≠ none) :
    s.Bounded ∧ s.rank = 0 :=
  ⟨⟨fun h ↦ absurd h hs, fun h ↦ absurd h hs, fun h ↦ absurd h hs⟩, if_neg hs⟩

theorem rank_pos {s : Negotiator} (hs : s.returned = none) (hb : s.Bounded) : 0 < s.rank := by
  have hretry := hb.retry hs
  have hdata := hb.retryData hs
  simp only [rank, hs, if_true]
  omega

theorem bounded_last {s s' : Negotiator} (hs : s.returned = none) (hb : s.Bounded)
    (hs' : s'.returned ≠ none) : s'.Bounded ∧ s'.rank < s.rank := by
  obtain ⟨hb', hzero⟩ := bounded_of_returned hs'
  exact ⟨hb', hzero ▸ rank_pos hs hb⟩

theorem bounded_afterOpen {s : Negotiator} (hb : s.Bounded) (port : TCPPort) :
    (s.afterOpen port).Bounded :=
  ⟨hb.retry, hb.retryData, hb.silent⟩

theorem bounded_notOpened {s : Negotiator} (hs : s.returned = none) (hb : s.Bounded) :
    s.notOpened.Bounded ∧ s.notOpened.rank < s.rank := by
  by_cases hlast : s.retry + 1 = 6
  · exact bounded_last hs hb (by simp [notOpened, hlast])
  · obtain ⟨hret, hr, hd, ha⟩ : s.notOpened.returned = none ∧
        s.notOpened.retry = s.retry + 1 ∧ s.notOpened.retryData = s.retryData ∧
          s.notOpened.acks = s.acks := by
      simp only [notOpened, hlast, if_false]
      split_ifs <;> exact ⟨hs, rfl, rfl, rfl⟩
    have hretry := hb.retry hs
    have hdata := hb.retryData hs
    refine ⟨⟨fun _ ↦ by omega, fun _ ↦ by omega, fun _ ↦ ha.trans (hb.silent hs)⟩, ?_⟩
    simp only [rank, hs, hret, if_true, hr, hd]
    omega

theorem bounded_noCommand {s : Negotiator} (hs : s.returned = none) (hb : s.Bounded)
    (r : Received × TCPPort) :
    (s.heard r).noCommand.Bounded ∧ (s.heard r).noCommand.rank < s.rank := by
  by_cases hlast : s.retryData + 1 = 4
  · exact bounded_last hs hb (by simp [noCommand, heard, hlast])
  · obtain ⟨hret, hr, hd, ha⟩ : (s.heard r).noCommand.returned = none ∧
        (s.heard r).noCommand.retry = 0 ∧
          (s.heard r).noCommand.retryData = s.retryData + 1 ∧
            (s.heard r).noCommand.acks = s.acks := by
      simp [noCommand, heard, hlast, hs]
    have hretry := hb.retry hs
    have hdata := hb.retryData hs
    refine ⟨⟨fun _ ↦ by omega, fun _ ↦ by omega, fun _ ↦ ha.trans (hb.silent hs)⟩, ?_⟩
    simp only [rank, hs, hret, if_true, hr, hd]
    omega

theorem bounded_start (nStartPort : ℕ) (port : TCPPort) : (start nStartPort port).Bounded :=
  ⟨fun _ ↦ Nat.zero_lt_succ 5, fun _ ↦ Nat.zero_lt_succ 3, fun _ ↦ rfl⟩

theorem bounded_pass {machine : Byte} {i : PassInput} {s : Negotiator} (hb : s.Bounded) :
    (s.pass machine i).Bounded ∧ (s.returned = none → (s.pass machine i).rank < s.rank) := by
  by_cases hs : s.returned = none
  · suffices hstep : (s.pass machine i).Bounded ∧ (s.pass machine i).rank < s.rank from
      ⟨hstep.1, fun _ ↦ hstep.2⟩
    rcases pass_cases machine i hs with
      ⟨-, port, heq⟩ | ⟨socket, -, ⟨-, heq⟩ | ⟨-, heq⟩⟩ <;> rw [heq]
    · exact bounded_notOpened hs (bounded_afterOpen hb port)
    · exact bounded_noCommand (s := s.afterOpen _) hs (bounded_afterOpen hb _) (i.got socket)
    · exact bounded_last hs hb (by simp [acknowledge])
  · rw [pass_returned hs]
    exact ⟨hb, fun hnone ↦ absurd hnone hs⟩

/-- Within twenty-four passes `negoiateChannel` returns, whatever the server does. -/
theorem pass_halts (machine : Byte) (nStartPort : ℕ) (port : TCPPort) (input : ℕ → PassInput) :
    ∃ n ≤ 24,
      (Transition.drive (pass machine) input n (start nStartPort port)).returned ≠ none := by
  have hkeep : ∀ (i : PassInput) (s : Negotiator), True → s.Bounded → (s.pass machine i).Bounded :=
    fun _ _ _ hb ↦ (bounded_pass hb).1
  exact Transition.drive_halts (fun _ ↦ trivial) hkeep rank
    (fun _ _ _ hb hrun ↦ (bounded_pass hb).2 (not_not.mp hrun)) (bounded_start nStartPort port)

theorem drive_bounded (machine : Byte) (nStartPort : ℕ) (port : TCPPort) (input : ℕ → PassInput)
    (n : ℕ) : (Transition.drive (pass machine) input n (start nStartPort port)).Bounded := by
  have hkeep : ∀ (i : PassInput) (s : Negotiator), True → s.Bounded → (s.pass machine i).Bounded :=
    fun _ _ _ hb ↦ (bounded_pass hb).1
  exact Transition.drive_invariant (fun _ ↦ trivial) hkeep (bounded_start nStartPort port) n

end Negotiator

/-! ## Where a port may come from -/

/-- A port assignment as the server sends it: a complete frame of one of the two
commands, with room for the port. -/
structure Assigns (frame : Packet) : Prop where
  complete : isFrameCRCOK frame.strCache = true
  command : frame.cmdField = letters 'p' 'A' ∨ frame.cmdField = letters 'p' 'B'
  holdsPort : 11 ≤ frame.getSize

/-- The acknowledgement of this frame: its command word and its port field. -/
def acknowledgementOf (machine : Byte) (frame : Packet) : List Byte :=
  [ACK, machine, frame.cmdField.1, frame.cmdField.2] ++
    if frame.wordAt 5 = 0#16 then []
    else [(frame.wordAt 5).extractLsb' 8 8, (frame.wordAt 5).extractLsb' 0 8]

namespace Negotiator

/-- A port returned or an acknowledgement handed over comes from an assignment
received on the last connection. -/
def Proper (machine : Byte) (s : Negotiator) : Prop :=
  (∃ p, s.returned = some p ∧ p ≠ 0) ∨ s.acks ≠ [] →
    ∃ frame, s.received = some frame ∧ Assigns frame ∧ s.returned = some (frame.wordAt 5) ∧
      s.acks.map Prod.fst = [acknowledgementOf machine frame]

theorem proper_of_quiet {machine : Byte} {s s' : Negotiator} (hquiet : Quiet s s')
    (hs : s.returned = none) (hacks : s.acks = []) : s'.Proper machine := by
  rintro (⟨p, hp, hne⟩ | hsome)
  · rcases hquiet.returned with hret | hret
    · rw [hret, hs] at hp
      cases hp
    · rw [hret] at hp
      exact absurd (Option.some.inj hp).symm hne
  · exact absurd (hquiet.acks.trans hacks) hsome

theorem ack_assignment {frame : Packet} (hframe : Assigns frame) (behind machine : Byte) :
    ((Packet.mk [] []).ack behind true machine frame.commandType (frame.wordAt 5)).strCache =
      acknowledgementOf machine frame := by
  have hword : wordOf behind frame.commandType = frame.cmdField := by
    rcases hframe.command with hcmd | hcmd <;> rw [Packet.commandType, hcmd] <;> rfl
  by_cases hport : frame.wordAt 5 = 0#16
  · rw [hport, Packet.ack_strCache_zero, hword]
    simp [acknowledgementOf, hport]
  · rw [Packet.ack_strCache _ _ _ _ _ hport, hword]
    simp [acknowledgementOf, hport, Answer.bytes]

theorem getAssignedPort_eq {cmd : Packet} (hcmd : cmd.strCache ≠ []) :
    cmd.getAssignedPort = cmd.wordAt 5 := by
  have hsize : ¬ cmd.getSize < 1 := by simpa [Packet.getSize] using hcmd
  rw [Packet.getAssignedPort, if_neg hsize]

/-- What the code acknowledges is what it received, so all depends on that. -/
theorem acknowledge_proper_iff (machine : Byte) (i : PassInput) {s : Negotiator} {cmd : Packet}
    (hcmd : cmd.strCache ≠ []) (hacks : s.acks = []) (hreceived : s.received = some cmd) :
    (s.acknowledge machine i cmd).Proper machine ↔ Assigns cmd := by
  constructor
  · intro hproper
    have hsome : (s.acknowledge machine i cmd).acks ≠ [] := by simp [acknowledge]
    obtain ⟨frame, hframe, hassigns, -⟩ := hproper (Or.inr hsome)
    obtain rfl : cmd = frame := Option.some.inj (hreceived.symm.trans hframe)
    exact hassigns
  · intro hassigns _
    refine ⟨cmd, hreceived, hassigns, ?_, ?_⟩
    · exact congrArg some (getAssignedPort_eq hcmd)
    · simp only [acknowledge, hacks, List.nil_append, List.map_cons, List.map_nil,
        getAssignedPort_eq hcmd, ack_assignment hassigns]

end Negotiator

/-- The receiver is left with nothing, or with a port assignment that no
exception interrupted. -/
def PassInput.Clean (i : PassInput) : Prop :=
  ∀ socket, i.Opens socket →
    (i.got socket).1.packet.strCache = [] ∨
      ((i.got socket).1.thrown = none ∨
          isFrameCRCOK (i.got socket).1.packet.strCache = true) ∧
        ((i.got socket).1.packet.cmdField = letters 'p' 'A' ∨
          (i.got socket).1.packet.cmdField = letters 'p' 'B') ∧
        11 ≤ (i.got socket).1.packet.getSize

theorem PassInput.clean_iff {i : PassInput} {socket : ℤ} (hopens : i.Opens socket) :
    i.Clean ↔ (i.got socket).1.packet.strCache = [] ∨ Assigns (i.got socket).1.packet := by
  constructor
  · intro hclean
    rcases hclean socket hopens with hempty | ⟨hwhole, hcommand, hsize⟩
    · exact Or.inl hempty
    · rcases hwhole with hthrown | hok
      · -- without an exception the receiver leaves nothing or a valid frame
        rcases Packet.receiveFrameFrom_complete _ _ hthrown with hempty | hok
        · exact Or.inl hempty
        · exact Or.inr ⟨hok, hcommand, hsize⟩
      · exact Or.inr ⟨hok, hcommand, hsize⟩
  · intro hgot socket' hopens'
    obtain rfl : socket = socket' := by
      simpa using hopens.2.symm.trans hopens'.2
    rcases hgot with hempty | hassigns
    · exact Or.inl hempty
    · exact Or.inr ⟨Or.inr hassigns.complete, hassigns.command, hassigns.holdsPort⟩

namespace Negotiator

theorem pass_proper_iff {machine : Byte} {i : PassInput} {s : Negotiator} (hs : s.returned = none)
    (hacks : s.acks = []) : (s.pass machine i).Proper machine ↔ i.Clean := by
  rcases pass_cases machine i hs with
    ⟨hnever, port, heq⟩ | ⟨socket, hopens, ⟨hempty, heq⟩ | ⟨hne, heq⟩⟩
  · rw [heq]
    exact iff_of_true (proper_of_quiet (s.afterOpen port).quiet_notOpened hs hacks)
      fun socket hopens ↦ absurd hopens (hnever socket)
  · rw [heq, PassInput.clean_iff hopens]
    exact iff_of_true (proper_of_quiet
      ((s.afterOpen ⟨socket, true⟩).heard (i.got socket)).quiet_noCommand hs hacks)
      (Or.inl hempty)
  · have hassigns := acknowledge_proper_iff machine i
      (s := (s.afterOpen ⟨socket, true⟩).heard (i.got socket)) hne hacks rfl
    rw [heq, PassInput.clean_iff hopens, hassigns]
    simp [hne]

/-- Every port and every acknowledgement comes from a real assignment exactly
when every connection made brings nothing or such an assignment. -/
theorem negoiateChannel_proper_iff (machine : Byte) (nStartPort : ℕ) (port : TCPPort)
    (input : ℕ → PassInput) :
    (∀ n, (Transition.drive (pass machine) input n (start nStartPort port)).Proper machine) ↔
      ∀ n, (Transition.drive (pass machine) input n (start nStartPort port)).returned = none →
        (input n).Clean := by
  have hsilent := fun n ↦ (drive_bounded machine nStartPort port input n).silent
  constructor
  · intro hproper n hrun
    exact (pass_proper_iff hrun (hsilent n hrun)).mp (hproper (n + 1))
  · intro hclean n
    induction n with
    | zero => rintro (⟨p, hp, -⟩ | hsome) <;> [cases hp; exact absurd rfl hsome]
    | succ n ih =>
        by_cases hrun :
          (Transition.drive (pass machine) input n (start nStartPort port)).returned = none
        · exact (pass_proper_iff hrun (hsilent n hrun)).mpr (hclean n hrun)
        · rw [Transition.drive, pass_returned hrun]
          exact ih

/-- The server resets the connection in the middle of an assignment of port
0x1234. -/
def interrupted : PassInput :=
  ⟨5, .success 5, [], [.data SOH, .data 0x01, .data STX, .data 0x70, .data 0x41, .data 0x12,
    .data 0x34, .error 104], 0x00, .sent⟩

def otherCommand : PassInput :=
  ⟨5, .success 5, [], Packet.requestFrame.map .data, 0x00, .sent⟩

/-- Seven bytes without an end are acknowledged as an assignment, and so is a
complete frame of another command, end mark and checksum read as its port. -/
theorem port_from_interrupted_frame :
    ((start 6000 ⟨-1, false⟩).pass 0x01 interrupted).returned = some 0x1234#16 ∧
      ((start 6000 ⟨-1, false⟩).pass 0x01 interrupted).acks =
        [([ACK, 0x01, 0x70, 0x41, 0x12, 0x34], none)] ∧
      ((start 6000 ⟨-1, false⟩).pass 0x01 interrupted).received.map Packet.strCache =
        some [SOH, 0x01, STX, 0x70, 0x41, 0x12, 0x34] ∧
      ((start 6000 ⟨-1, false⟩).pass 0x01 otherCommand).acks.map (fun ack ↦ ack.1.take 5) =
        [[ACK, 0x01, 0x72, 0x61, ETX]] ∧
      ((start 6000 ⟨-1, false⟩).pass 0x01 otherCommand).received.map Packet.cmdField =
        some (letters 'r' 'a') := by
  decide +kernel

end Negotiator

/-! ## The port number does not depend on the port object -/

/-- The call: the loop returns within the passes made here, see
`negoiateChannel_returned`. -/
def negoiateChannel (machine : Byte) (nStartPort : ℕ) (input : ℕ → PassInput) (port : TCPPort) :
    Word × TCPPort :=
  let s := Transition.drive (Negotiator.pass machine) input 24 (Negotiator.start nStartPort port)
  (s.returned.getD 0, s.port)

namespace Negotiator

theorem drive_stays {machine : Byte} {input : ℕ → PassInput} {s : Negotiator} {n m : ℕ}
    (hn : (Transition.drive (pass machine) input n s).returned ≠ none) (hle : n ≤ m) :
    Transition.drive (pass machine) input m s = Transition.drive (pass machine) input n s := by
  induction m, hle using Nat.le_induction with
  | base => rfl
  | succ m _ ih => rw [Transition.drive, ih, pass_returned hn]

theorem negoiateChannel_returned (machine : Byte) (nStartPort : ℕ) (input : ℕ → PassInput)
    (port : TCPPort) :
    (Transition.drive (pass machine) input 24 (start nStartPort port)).returned =
      some (negoiateChannel machine nStartPort input port).1 := by
  obtain ⟨n, hn, hreturned⟩ := pass_halts machine nStartPort port input
  have hstays := drive_stays hreturned hn
  obtain ⟨p, hp⟩ := Option.ne_none_iff_exists'.mp hreturned
  rw [negoiateChannel, hstays, hp]
  rfl

theorem notOpened_port (s : Negotiator) (port : TCPPort) :
    notOpened { s with port := port } = { s.notOpened with port := port } := by
  unfold notOpened
  dsimp only
  split_ifs <;> rfl

/-- A pass from another port differs at most in the port it leaves. -/
theorem pass_port (machine : Byte) (i : PassInput) (s : Negotiator) (port : TCPPort) :
    ∃ q, pass machine i { s with port := port } = { s.pass machine i with port := q } := by
  by_cases hs : s.returned = none
  · have hs' : ({ s with port := port } : Negotiator).returned = none := hs
    rcases pass_cases machine i hs with ⟨hnever, q, heq⟩ | ⟨socket, hopens, hgot⟩
    · rcases pass_cases machine i hs' with ⟨-, q', heq'⟩ | ⟨socket', hopens', -⟩
      · refine ⟨q', ?_⟩
        rw [heq, heq']
        exact notOpened_port (s.afterOpen q) q'
      · exact absurd hopens' (hnever socket')
    · rcases pass_cases machine i hs' with ⟨hnever', -⟩ | ⟨socket', hopens', hgot'⟩
      · exact absurd hopens (hnever' socket)
      · -- the receiver works on the new connection, so both go on as one
        obtain rfl : socket = socket' := by simpa using hopens.2.symm.trans hopens'.2
        refine ⟨(s.pass machine i).port, ?_⟩
        rcases hgot with ⟨hempty, heq⟩ | ⟨hne, heq⟩ <;>
          rcases hgot' with ⟨hempty', heq'⟩ | ⟨hne', heq'⟩
        · rw [heq, heq']
          rfl
        · exact absurd hempty hne'
        · exact absurd hempty' hne
        · rw [heq, heq']
          rfl
  · have hs' : ({ s with port := port } : Negotiator).returned ≠ none := hs
    exact ⟨port, by rw [pass_returned hs, pass_returned hs']⟩

theorem drive_port (machine : Byte) (input : ℕ → PassInput) (s : Negotiator) (port : TCPPort)
    (n : ℕ) :
    ∃ q, Transition.drive (pass machine) input n { s with port := port } =
      { Transition.drive (pass machine) input n s with port := q } := by
  induction n with
  | zero => exact ⟨port, rfl⟩
  | succ n ih =>
      obtain ⟨q, hq⟩ := ih
      obtain ⟨q', hq'⟩ := pass_port machine (input n) (Transition.drive (pass machine) input n s) q
      exact ⟨q', by rw [Transition.drive, hq, hq', Transition.drive]⟩

end Negotiator

theorem negoiateChannel_port (machine : Byte) (nStartPort : ℕ) (input : ℕ → PassInput)
    (port port' : TCPPort) :
    (negoiateChannel machine nStartPort input port').1 =
      (negoiateChannel machine nStartPort input port).1 := by
  obtain ⟨q, hq⟩ := Negotiator.drive_port machine input (Negotiator.start nStartPort port) port' 24
  have hstart : ({ Negotiator.start nStartPort port with port := port' } : Negotiator) =
      Negotiator.start nStartPort port' := rfl
  rw [hstart] at hq
  simp only [negoiateChannel, hq]

/-! ## The two callers -/

inductive ChannelEvent
  | negotiated (nPort : Word)
  | connect (nPort : Word) (ok : Bool)
  deriving DecidableEq, Repr

def ChannelEvent.isConnect : ChannelEvent → Bool
  | .connect _ _ => true
  | .negotiated _ => false

/-- A caller under way: the port, what the outside will do, and what was done. -/
structure ChannelRun where
  port : TCPPort
  -- the readings of `IsPowerOff` and the calls of `negoiateChannel` to come
  power : ℕ → Bool
  calls : ℕ → ℕ → PassInput
  connects : List ConnectResult
  log : List ChannelEvent

inductive ConnectEnd
  | connected
  | poweredOff
  | exhausted
  deriving DecidableEq, Repr

inductive ChannelEnd
  | connected (nPort : Word)
  | poweredOff
  | failed
  deriving DecidableEq, Repr

namespace ChannelRun

def afterPower (r : ChannelRun) : ChannelRun := { r with power := fun n ↦ r.power (n + 1) }

def negotiate (machine : Byte) (nStartPort : ℕ) (r : ChannelRun) : Word × ChannelRun :=
  let result := negoiateChannel machine nStartPort (r.calls 0) r.port
  (result.1, { r with
    port := result.2
    calls := fun n ↦ r.calls (n + 1)
    log := r.log ++ [.negotiated result.1] })

def connect (nPort : Word) (r : ChannelRun) : Bool × ChannelRun :=
  let result := r.port.connect (r.connects.headD .refused)
  (result.1, { r with
    port := result.2
    connects := r.connects.tail
    log := r.log ++ [.connect nPort result.1] })

/-- The inner loop `while (retry--)`. -/
def connectTries (nPort : Word) : ℕ → ChannelRun → ConnectEnd × ChannelRun
  | 0, r => (.exhausted, r)
  | retry + 1, r =>
      match r.connect nPort with
      | (true, r) => (.connected, r)
      | (false, r) =>
          if r.power 0 then (.poweredOff, r.afterPower) else connectTries nPort retry r.afterPower

/-- The outer loop, by the value of `retry_connect`. -/
def channelLoop (machine : Byte) (nStartPort : ℕ) : ℕ → Word → ChannelRun → ChannelEnd × ChannelRun
  | 0, _, r => (.failed, r)
  | retryConnect + 1, nPort, r =>
      if nPort = 0 then (.failed, r)
      else
        match connectTries nPort 3 r with
        | (.connected, r) => (.connected nPort, r)
        | (.poweredOff, r) => (.poweredOff, r)
        | (.exhausted, r) =>
            if r.power 0 then (.poweredOff, r.afterPower)
            else
              let next := r.afterPower.negotiate machine nStartPort
              channelLoop machine nStartPort retryConnect next.1 next.2

def openChannel (machine : Byte) (nStartPort : ℕ) (r : ChannelRun) : ChannelEnd × ChannelRun :=
  let first := r.negotiate machine nStartPort
  channelLoop machine nStartPort 1 first.1 first.2

/-- Waiting for `bControlDone`, which is set after as many seconds: whether the
modem stayed on. -/
def waitControl : ℕ → ChannelRun → Bool × ChannelRun
  | 0, r => (true, r)
  | waits + 1, r => if r.power 0 then (false, r.afterPower) else waitControl waits r.afterPower

/-- The value returned, `bExtCommunicationError`, and the run. -/
def negoiateDataChannel (machine : Byte) (nDataPort waits : ℕ) (bExtCommunicationError : Bool)
    (r : ChannelRun) : ℤ × Bool × ChannelRun :=
  let waited := waitControl waits r
  if waited.1 then
    let run := openChannel machine nDataPort waited.2
    match run.1 with
    | .connected nPort => (nPort.toNat, false, run.2)
    | .poweredOff => (0, bExtCommunicationError, run.2)
    | .failed => (-1, bExtCommunicationError || !run.2.power 0, run.2.afterPower)
  else (0, bExtCommunicationError, waited.2)

def unasked (r : ChannelRun) : ChannelRun := { r with power := fun _ ↦ false }

/-- `bExtCommunicationError`, `bControlDone`, and the run. -/
def negoiateControlChannel (machine : Byte) (nCommandPort : ℕ) (bControlDone : Bool)
    (r : ChannelRun) : Bool × Bool × ChannelRun :=
  let run := openChannel machine nCommandPort r.unasked
  match run.1 with
  | .connected _ => (false, true, run.2)
  | _ => (true, bControlDone, run.2)

/-! ## Is an assigned port tried? -/

/-- Every port assigned is followed by an attempt to connect to it, before the
next negotiation and before the end. -/
def Tried : List ChannelEvent → Prop
  | [] => True
  | .negotiated p :: rest =>
      (p ≠ 0 → ∃ ok, .connect p ok ∈ rest.takeWhile ChannelEvent.isConnect) ∧ Tried rest
  | .connect _ _ :: rest => Tried rest

def isSuccess : ConnectResult → Bool
  | .success _ => true
  | _ => false

def Attempts (p : Word) (ts : List ChannelEvent) : Prop :=
  ts ≠ [] ∧ ∀ t ∈ ts, ∃ ok, t = .connect p ok

theorem tried_attempts {p : Word} {ts : List ChannelEvent} (hts : ∀ t ∈ ts, ∃ ok, t = .connect p ok)
    (rest : List ChannelEvent) : Tried (ts ++ rest) ↔ Tried rest := by
  induction ts with
  | nil => rfl
  | cons t ts ih =>
      obtain ⟨ok, rfl⟩ := hts t (by simp)
      exact ih fun t ht ↦ hts t (by simp [ht])

theorem tried_round {p : Word} {ts : List ChannelEvent} (hts : Attempts p ts)
    (rest : List ChannelEvent) : Tried (.negotiated p :: (ts ++ rest)) ↔ Tried rest := by
  obtain ⟨hne, hall⟩ := hts
  obtain ⟨t, ts', rfl⟩ := List.exists_cons_of_ne_nil hne
  obtain ⟨ok, rfl⟩ := hall t (by simp)
  have hfirst : ChannelEvent.connect p ok ∈
      ((ChannelEvent.connect p ok :: ts') ++ rest).takeWhile ChannelEvent.isConnect := by
    rw [List.cons_append, List.takeWhile_cons_of_pos rfl]
    exact List.mem_cons_self
  rw [Tried, tried_attempts hall]
  exact and_iff_right fun _ ↦ ⟨ok, hfirst⟩

theorem tried_negotiated (p : Word) : Tried [.negotiated p] ↔ p = 0 := by
  simp [Tried]

/-! ## What the callers log -/

theorem connect_fst (nPort : Word) (r : ChannelRun) :
    (r.connect nPort).1 = isSuccess (r.connects.headD .refused) := by
  unfold connect
  cases r.connects.headD .refused <;> rfl

theorem connectTries_succ (nPort : Word) (retry : ℕ) (r : ChannelRun) :
    connectTries nPort (retry + 1) r =
      if isSuccess (r.connects.headD .refused) then (.connected, (r.connect nPort).2)
      else if r.power 0 then (.poweredOff, (r.connect nPort).2.afterPower)
      else connectTries nPort retry (r.connect nPort).2.afterPower := by
  have hpower : (r.connect nPort).2.power = r.power := rfl
  rw [connectTries, ← connect_fst nPort r, ← hpower]
  rcases r.connect nPort with ⟨_ | _, r'⟩ <;> rfl

theorem success_take_succ (connects : List ConnectResult) (retry : ℕ) :
    (∃ c ∈ connects.take (retry + 1), isSuccess c = true) ↔
      isSuccess (connects.headD .refused) = true ∨
        ∃ c ∈ connects.tail.take retry, isSuccess c = true := by
  cases connects with
  | nil => simp [isSuccess]
  | cons c connects => simp

theorem afterPower_const {r : ChannelRun} {b : Bool} (hpower : ∀ n, r.power n = b) :
    r.afterPower = r := by
  have hshift : (fun n ↦ r.power (n + 1)) = r.power := by
    funext n
    rw [hpower, hpower]
  rw [afterPower, hshift]

theorem connectTries_keeps (nPort : Word) (retry : ℕ) {r : ChannelRun} {b : Bool}
    (hpower : ∀ n, r.power n = b) :
    (∀ n, (connectTries nPort retry r).2.power n = b) ∧
      (connectTries nPort retry r).2.calls = r.calls := by
  induction retry generalizing r with
  | zero => exact ⟨hpower, rfl⟩
  | succ retry ih =>
      have hnext : ∀ n, (r.connect nPort).2.power n = b := hpower
      rw [connectTries_succ, afterPower_const hnext]
      split_ifs
      · exact ⟨hpower, rfl⟩
      · exact ⟨hpower, rfl⟩
      · exact ih hnext

/-- With the modem on, the inner loop ends with a connection or with all its
attempts used up. -/
theorem connectTries_on (nPort : Word) (retry : ℕ) {r : ChannelRun}
    (hpower : ∀ n, r.power n = false) :
    ((connectTries nPort retry r).1 =
        if ∃ c ∈ r.connects.take retry, isSuccess c = true then .connected else .exhausted) ∧
      ∃ ts, (connectTries nPort retry r).2.log = r.log ++ ts ∧ (0 < retry → ts ≠ []) ∧
        ∀ t ∈ ts, ∃ ok, t = .connect nPort ok := by
  induction retry generalizing r with
  | zero => exact ⟨by simp [connectTries], [], by simp [connectTries], by simp, by simp⟩
  | succ retry ih =>
      have hnext : ∀ n, (r.connect nPort).2.power n = false := hpower
      have hlog : (r.connect nPort).2.log = r.log ++ [.connect nPort (r.connect nPort).1] := rfl
      have hrest : (r.connect nPort).2.connects = r.connects.tail := rfl
      rw [connectTries_succ, afterPower_const hnext, hpower 0]
      simp only [success_take_succ]
      cases isSuccess (r.connects.headD .refused) with
      | true => exact ⟨by simp, [.connect nPort (r.connect nPort).1], hlog, by simp, by simp⟩
      | false =>
          obtain ⟨hend, ts, hlog', -, hts⟩ := ih hnext
          rw [hrest] at hend
          refine ⟨by simpa using hend, .connect nPort (r.connect nPort).1 :: ts, ?_, by simp, ?_⟩
          · simpa [hlog] using hlog'
          · intro t ht
            rcases List.mem_cons.mp ht with rfl | ht
            · exact ⟨_, rfl⟩
            · exact hts t ht

/-- The first port is not tried if there is none, the second one never is. -/
theorem openChannel_tried_iff (machine : Byte) (nStartPort : ℕ) (r : ChannelRun)
    (hlog : r.log = []) (hpower : ∀ n, r.power n = false) :
    Tried (openChannel machine nStartPort r).2.log ↔
      (negoiateChannel machine nStartPort (r.calls 0) r.port).1 = 0 ∨
        (∃ c ∈ r.connects.take 3, isSuccess c = true) ∨
          (negoiateChannel machine nStartPort (r.calls 1) r.port).1 = 0 := by
  obtain ⟨p, hp⟩ : ∃ p, p = (negoiateChannel machine nStartPort (r.calls 0) r.port).1 := ⟨_, rfl⟩
  obtain ⟨first, hfirst⟩ : ∃ first, first = (r.negotiate machine nStartPort).2 := ⟨_, rfl⟩
  have hlog₁ : first.log = [.negotiated p] := by
    rw [hfirst, hp]
    simp [negotiate, hlog]
  have hrun : openChannel machine nStartPort r = channelLoop machine nStartPort 1 p first := by
    rw [hfirst, hp]
    rfl
  rw [hrun, channelLoop, ← hp]
  by_cases hzero : p = 0
  · simp only [hzero, if_true, true_or, iff_true]
    rw [hlog₁, tried_negotiated]
    exact hzero
  · have hpower₁ : ∀ n, first.power n = false := hfirst ▸ hpower
    have hconnects : first.connects = r.connects := hfirst ▸ rfl
    obtain ⟨hend, ts, hlog', hne, hts⟩ := connectTries_on p 3 hpower₁
    obtain ⟨hpower', hcalls⟩ := connectTries_keeps p 3 hpower₁
    have hattempts : Attempts p ts := ⟨hne (by decide), hts⟩
    rw [hconnects] at hend
    rcases htries : connectTries p 3 first with ⟨ending, r'⟩
    rw [htries] at hend hlog' hpower' hcalls
    dsimp only at hend hlog' hpower' hcalls
    by_cases hsuccess : ∃ c ∈ r.connects.take 3, isSuccess c = true
    · obtain rfl : ending = .connected := hend.trans (if_pos hsuccess)
      simp only [hzero, if_false, hsuccess, true_or, or_true, iff_true]
      rw [hlog', hlog₁, List.singleton_append, ← List.append_nil ts, tried_round hattempts]
      trivial
    · obtain rfl : ending = .exhausted := hend.trans (if_neg hsuccess)
      -- the second negotiation is logged, and the loop ends behind it
      have hsecond : (r'.afterPower.negotiate machine nStartPort).1 =
          (negoiateChannel machine nStartPort (r.calls 1) r.port).1 := by
        have hcall : r'.afterPower.calls 0 = r.calls 1 := by
          rw [afterPower, hcalls, hfirst]
          rfl
        rw [negotiate, hcall]
        exact negoiateChannel_port machine nStartPort (r.calls 1) r.port _
      have hlast : (r'.afterPower.negotiate machine nStartPort).2.log = .negotiated p ::
          (ts ++ [.negotiated (r'.afterPower.negotiate machine nStartPort).1]) := by
        simp [negotiate, afterPower, hlog', hlog₁]
      simp only [hzero, if_false, hpower' 0, hsuccess, false_or, Bool.false_eq_true]
      rw [channelLoop, hlast, tried_round hattempts, tried_negotiated, hsecond]

/-! ## The two functions -/

theorem waitControl_on {r : ChannelRun} (hpower : ∀ n, r.power n = false) (waits : ℕ) :
    waitControl waits r = (true, r) := by
  induction waits with
  | zero => rfl
  | succ waits ih => simp [waitControl, hpower 0, afterPower_const hpower, ih]

theorem negoiateDataChannel_log (machine : Byte) (nDataPort waits : ℕ) (bExt : Bool)
    {r : ChannelRun} (hpower : ∀ n, r.power n = false) :
    (r.negoiateDataChannel machine nDataPort waits bExt).2.2.log =
      (openChannel machine nDataPort r).2.log := by
  simp only [negoiateDataChannel, waitControl_on hpower, if_true]
  generalize openChannel machine nDataPort r = run
  rcases run with ⟨_ | _ | _, r'⟩ <;> rfl

theorem negoiateControlChannel_log (machine : Byte) (nCommandPort : ℕ) (bControlDone : Bool)
    (r : ChannelRun) :
    (r.negoiateControlChannel machine nCommandPort bControlDone).2.2.log =
      (openChannel machine nCommandPort r.unasked).2.log := by
  unfold negoiateControlChannel
  generalize openChannel machine nCommandPort r.unasked = run
  rcases run with ⟨_ | _ | _, r'⟩ <;> rfl

/-- With the modem on, both callers try every port they were assigned exactly
when they end before the second negotiation, or that one assigns no port.  The
port numbers assigned do not depend on the port object, see
`negoiateChannel_port`. -/
theorem assigned_ports_tried_iff (machine : Byte) (nDataPort nCommandPort waits : ℕ)
    (bExt bControlDone : Bool) (r : ChannelRun) (hlog : r.log = [])
    (hpower : ∀ n, r.power n = false) :
    (Tried (r.negoiateDataChannel machine nDataPort waits bExt).2.2.log ↔
      (negoiateChannel machine nDataPort (r.calls 0) r.port).1 = 0 ∨
        (∃ c ∈ r.connects.take 3, isSuccess c = true) ∨
          (negoiateChannel machine nDataPort (r.calls 1) r.port).1 = 0) ∧
    (Tried (r.negoiateControlChannel machine nCommandPort bControlDone).2.2.log ↔
      (negoiateChannel machine nCommandPort (r.calls 0) r.port).1 = 0 ∨
        (∃ c ∈ r.connects.take 3, isSuccess c = true) ∨
          (negoiateChannel machine nCommandPort (r.calls 1) r.port).1 = 0) := by
  rw [negoiateDataChannel_log machine nDataPort waits bExt hpower, negoiateControlChannel_log]
  exact ⟨openChannel_tried_iff machine nDataPort r hlog hpower,
    openChannel_tried_iff machine nCommandPort r.unasked hlog fun _ ↦ rfl⟩

def assignment : PassInput :=
  ⟨5, .success 5, [], ((Packet.mk [] []).buildPacket [0x70, 0x41, 0x12, 0x34] 0x01).strCache.map
    .data, 0x00, .sent⟩

/-- Every negotiation assigns port 0x1234, and these are the outcomes of
`Connect`. -/
def assigning (connects : List ConnectResult) : ChannelRun :=
  ⟨⟨-1, false⟩, fun _ ↦ false, fun _ _ ↦ assignment, connects, []⟩

theorem assigned_ports_tried_second :
    Tried ((assigning [.refused, .success 5]).negoiateDataChannel 0x01 6000 0 false).2.2.log ∧
      Tried
        ((assigning [.refused, .success 5]).negoiateControlChannel 0x01 6002 false).2.2.log := by
  obtain ⟨hdata, hcontrol⟩ := assigned_ports_tried_iff 0x01 6000 6002 0 false false
    (assigning [.refused, .success 5]) rfl fun _ ↦ rfl
  have hsuccess : ∃ c ∈ (assigning [.refused, .success 5]).connects.take 3, isSuccess c = true :=
    ⟨.success 5, by simp [assigning], rfl⟩
  rw [hdata, hcontrol]
  exact ⟨Or.inr (Or.inl hsuccess), Or.inr (Or.inl hsuccess)⟩

/-- After three refused connections a port is negotiated and acknowledged again,
and the function returns without an attempt to connect to it. -/
theorem second_port_not_tried :
    ((assigning []).negoiateDataChannel 0x01 6000 0 false).2.2.log =
        [.negotiated 0x1234, .connect 0x1234 false, .connect 0x1234 false,
          .connect 0x1234 false, .negotiated 0x1234] ∧
      ((assigning []).negoiateControlChannel 0x01 6002 false).2.2.log =
        [.negotiated 0x1234, .connect 0x1234 false, .connect 0x1234 false,
          .connect 0x1234 false, .negotiated 0x1234] := by
  decide +kernel

/-! ## The summary used by the sender -/

def toLoop : ConnectEnd × ChannelRun → ConnectLoop
  | (.connected, r) => .connected r.port
  | (.poweredOff, r) => .poweredOff r.port
  | (.exhausted, r) => .exhausted r.port

theorem connectTries_toLoop (nPort : Word) (retry : ℕ) {r : ChannelRun} {b : Bool}
    (hpower : ∀ n, r.power n = b) :
    connectLoop b retry r.connects r.port = toLoop (connectTries nPort retry r) := by
  induction retry generalizing r with
  | zero => rfl
  | succ retry ih =>
      have hnext : ∀ n, (r.connect nPort).2.power n = b := hpower
      have hfst := connect_fst nPort r
      have hpair : r.port.connect (r.connects.headD .refused) =
        ((r.connect nPort).1, (r.connect nPort).2.port) := rfl
      rw [connectTries_succ, connectLoop, hpair, hpower 0, afterPower_const hnext, hfst]
      cases isSuccess (r.connects.headD .refused) with
      | true => rfl
      | false =>
          cases b with
          | true => rfl
          | false => exact ih hnext

/-- What this run is to the sender, which sees no calls inside. -/
def asNegotiation (machine : Byte) (nDataPort waits : ℕ) (r : ChannelRun) : Negotiation :=
  let first := r.negotiate machine nDataPort
  { controlDone := waits == 0
    assigned := first.1.toNat
    opened := first.2.port
    connects := r.connects
    reopened :=
      (negoiateChannel machine nDataPort (r.calls 1) (connectTries first.1 3 first.2).2.port).2 }

theorem waitControl_off {r : ChannelRun} (hpower : ∀ n, r.power n = true) (waits : ℕ) :
    waitControl (waits + 1) r = (false, r) := by
  simp [waitControl, hpower 0, afterPower_const hpower]

theorem channelLoop_eq (machine : Byte) (nDataPort : ℕ) (bExt : Bool) (p : Word) {f : ChannelRun}
    {b : Bool} (hpower : ∀ n, f.power n = b) (port : TCPPort) :
    DeviceAgent.negoiateDataChannel b ⟨true, p.toNat, f.port, f.connects,
        (negoiateChannel machine nDataPort (f.calls 0) (connectTries p 3 f).2.port).2⟩ port bExt =
      match (channelLoop machine nDataPort 1 p f).1 with
      | .connected nPort => ⟨nPort.toNat, (channelLoop machine nDataPort 1 p f).2.port, false⟩
      | .poweredOff => ⟨0, (channelLoop machine nDataPort 1 p f).2.port, bExt⟩
      | .failed => ⟨-1, (channelLoop machine nDataPort 1 p f).2.port, bExt || !b⟩ := by
  have hloop := connectTries_toLoop p 3 hpower
  obtain ⟨hpower', hcalls⟩ := connectTries_keeps p 3 hpower
  by_cases hp : p = 0
  · simp [DeviceAgent.negoiateDataChannel, channelLoop, hp]
  · have hassigned : p.toNat ≠ 0 := fun h ↦ hp (BitVec.eq_of_toNat_eq h)
    simp only [DeviceAgent.negoiateDataChannel, channelLoop, hp, hassigned, hloop, if_false,
      Bool.not_true, Bool.false_and, Bool.false_eq_true]
    rcases htries : connectTries p 3 f with ⟨_ | _ | _, f'⟩
    · rfl
    · rfl
    · rw [htries] at hpower' hcalls
      have hon : f'.power 0 = b := hpower' 0
      have hnext : f'.afterPower = f' := afterPower_const hpower'
      simp only [toLoop, hon, hnext]
      cases b with
      | true => rfl
      | false => simp [negotiate, ← hcalls]

theorem channelLoop_power (machine : Byte) (nStartPort retryConnect : ℕ) (p : Word)
    {f : ChannelRun} {b : Bool} (hpower : ∀ n, f.power n = b) :
    ∀ n, (channelLoop machine nStartPort retryConnect p f).2.power n = b := by
  induction retryConnect generalizing p f with
  | zero => exact hpower
  | succ retryConnect ih =>
      obtain ⟨hpower', -⟩ := connectTries_keeps p 3 hpower
      rw [channelLoop]
      by_cases hp : p = 0
      · simpa [hp] using hpower
      · simp only [hp, if_false]
        rcases htries : connectTries p 3 f with ⟨_ | _ | _, f'⟩ <;> rw [htries] at hpower'
        · exact hpower'
        · exact hpower'
        · simp only [afterPower_const hpower']
          split_ifs
          · exact hpower'
          · exact ih _ hpower'

/-- The sender's summary of `NegoiateDataChannel` agrees with the loops. -/
theorem negoiateDataChannel_eq (machine : Byte) (nDataPort waits : ℕ) (bExt : Bool)
    {r : ChannelRun} {b : Bool} (hpower : ∀ n, r.power n = b) :
    DeviceAgent.negoiateDataChannel b (r.asNegotiation machine nDataPort waits) r.port bExt =
      ⟨(r.negoiateDataChannel machine nDataPort waits bExt).1,
        (r.negoiateDataChannel machine nDataPort waits bExt).2.2.port,
        (r.negoiateDataChannel machine nDataPort waits bExt).2.1⟩ := by
  by_cases hoff : waits ≠ 0 ∧ b = true
  · -- the modem goes off while the caller waits for the control channel
    obtain ⟨hwaits, rfl⟩ := hoff
    obtain ⟨waits, rfl⟩ := Nat.exists_eq_succ_of_ne_zero hwaits
    simp [DeviceAgent.negoiateDataChannel, asNegotiation, negoiateDataChannel,
      waitControl_off hpower]
  · have hwait : waitControl waits r = (true, r) := by
      cases b with
      | false => exact waitControl_on hpower waits
      | true =>
          obtain rfl : waits = 0 := by simpa using hoff
          rfl
    have hdone : (!(waits == 0) && b) = false := by
      cases b with
      | false => simp
      | true => simpa using hoff
    have hkeep : ∀ n, (r.negotiate machine nDataPort).2.power n = b := hpower
    have hloop := channelLoop_eq machine nDataPort bExt (r.negotiate machine nDataPort).1 hkeep
      r.port
    have hlast := channelLoop_power machine nDataPort 1 (r.negotiate machine nDataPort).1 hkeep
    have hskip : DeviceAgent.negoiateDataChannel b (r.asNegotiation machine nDataPort waits) r.port
        bExt = DeviceAgent.negoiateDataChannel b
          { r.asNegotiation machine nDataPort waits with controlDone := true } r.port bExt := by
      simp [DeviceAgent.negoiateDataChannel, asNegotiation, hdone]
    rw [hskip]
    refine hloop.trans ?_
    simp only [negoiateDataChannel, hwait, if_true, openChannel]
    generalize channelLoop machine nDataPort 1 (r.negotiate machine nDataPort).1
      (r.negotiate machine nDataPort).2 = run at hlast ⊢
    rcases run with ⟨_ | _ | _, f⟩
    · rfl
    · rfl
    · have hon : f.power 0 = b := hlast 0
      simp [hon, afterPower]

end ChannelRun

end DeviceAgent
