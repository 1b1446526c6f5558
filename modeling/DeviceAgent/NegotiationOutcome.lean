import DeviceAgent.ChannelNegotiation

/-!
# How a negotiation ends

`negoiateChannel` counts failed opens and silent connections apart.  Every way
to give up leads over both ports, but only some of them close the connection
that is given up.  `NegoiateDataChannel` turns the outcome into one of three
kinds of result.
-/

namespace DeviceAgent

namespace Negotiator

/-! ## The ports opened -/

/-- Without a frame there is nothing to acknowledge. -/
def GaveUp (s : Negotiator) : Prop := s.returned ≠ none ∧ s.acks = []

/-- What the counters say about the ports opened so far: a counter that has
moved on far enough has made the port change. -/
structure Fair (nStartPort : ℕ) (s : Negotiator) : Prop where
  bounded : s.Bounded
  count : s.opens.length + s.rank ≤ 24
  start : s.nStartPort = nStartPort
  current : s.startPort = nStartPort ∨ s.startPort = nStartPort + 1
  range : ∀ p ∈ s.opens, p = nStartPort ∨ p = nStartPort + 1
  other : s.returned = none → 3 ≤ s.retry ∨ 0 < s.retryData → s.toggled ∈ s.opens
  both : s.GaveUp → nStartPort ∈ s.opens ∧ nStartPort + 1 ∈ s.opens

theorem fair_start (nStartPort : ℕ) (port : TCPPort) : Fair nStartPort (start nStartPort port) := by
  refine ⟨bounded_start nStartPort port, by simp [rank, start], rfl, Or.inl rfl, by simp [start],
    ?_, ?_⟩
  · rintro - (hretry | hdata)
    · exact absurd hretry (by simp [start])
    · exact absurd hdata (by simp [start])
  · exact fun hgave ↦ absurd rfl hgave.1

variable {nStartPort : ℕ} {s s' : Negotiator}

theorem toggled_cases (hstart : s.nStartPort = nStartPort)
    (hcurrent : s.startPort = nStartPort ∨ s.startPort = nStartPort + 1) :
    (s.startPort = nStartPort ∧ s.toggled = nStartPort + 1) ∨
      (s.startPort = nStartPort + 1 ∧ s.toggled = nStartPort) := by
  unfold toggled
  rcases hcurrent with heq | heq
  · exact Or.inl ⟨heq, by rw [if_pos (heq.trans hstart.symm), heq]⟩
  · have hne : s.startPort ≠ s.nStartPort := by omega
    exact Or.inr ⟨heq, by rw [if_neg hne, hstart]⟩

/-- The part of the invariant that every pass keeps, whatever it meets. -/
theorem Fair.range_snoc (h : Fair nStartPort s) (hopens : s'.opens = s.opens ++ [s.startPort]) :
    ∀ p ∈ s'.opens, p = nStartPort ∨ p = nStartPort + 1 := by
  intro p hp
  rw [hopens] at hp
  rcases List.mem_append.mp hp with hold | hnew
  · exact h.range p hold
  · rw [List.mem_singleton.mp hnew]
    exact h.current

theorem Fair.count_snoc (h : Fair nStartPort s) (hopens : s'.opens = s.opens ++ [s.startPort])
    (hrank : s'.rank < s.rank) : s'.opens.length + s'.rank ≤ 24 := by
  have hcount := h.count
  rw [hopens, List.length_append, List.length_singleton]
  omega

/-- A pass that gives up has opened the other port before. -/
theorem Fair.both_snoc (h : Fair nStartPort s) (hopens : s'.opens = s.opens ++ [s.startPort])
    (hother : s.toggled ∈ s.opens) : nStartPort ∈ s'.opens ∧ nStartPort + 1 ∈ s'.opens := by
  rw [hopens]
  rcases toggled_cases h.start h.current with ⟨hnow, hnext⟩ | ⟨hnow, hnext⟩
  · rw [hnext] at hother
    exact ⟨by simp [hnow], by simp [hother]⟩
  · rw [hnext] at hother
    exact ⟨by simp [hother], by simp [hnow]⟩

/-- A pass that changes the port leaves the one it opened as the other one. -/
theorem Fair.toggle (h : Fair nStartPort s) (hopens : s'.opens = s.opens ++ [s.startPort])
    (hnone : s'.returned = none) (hbounded : s'.Bounded) (hrank : s'.rank < s.rank)
    (hstart : s'.nStartPort = s.nStartPort) (hport : s'.startPort = s.toggled) :
    Fair nStartPort s' := by
  have hstart' := hstart.trans h.start
  have hcurrent : s'.startPort = nStartPort ∨ s'.startPort = nStartPort + 1 := by
    rw [hport]
    rcases toggled_cases h.start h.current with ⟨-, hnext⟩ | ⟨-, hnext⟩
    · exact Or.inr hnext
    · exact Or.inl hnext
  refine ⟨hbounded, h.count_snoc hopens hrank, hstart', hcurrent, h.range_snoc hopens,
    fun _ _ ↦ ?_, ?_⟩
  · have hback : s'.toggled = s.startPort := by
      rcases toggled_cases h.start h.current with ⟨hnow, hnext⟩ | ⟨hnow, hnext⟩ <;>
        rcases toggled_cases hstart' hcurrent with ⟨hnow', hnext'⟩ | ⟨hnow', hnext'⟩ <;> omega
    simp [hopens, hback]
  · exact fun hgave ↦ absurd hnone hgave.1

@[simp] theorem notOpened_opens (s : Negotiator) : s.notOpened.opens = s.opens := by
  unfold notOpened
  dsimp only
  split_ifs <;> rfl

@[simp] theorem noCommand_opens (s : Negotiator) : s.noCommand.opens = s.opens := by
  unfold noCommand
  dsimp only
  split_ifs <;> rfl

theorem Fair.notOpened (h : Fair nStartPort s) (hs : s.returned = none) (port : TCPPort) :
    Fair nStartPort (s.afterOpen port).notOpened := by
  obtain ⟨hbounded, hrank⟩ :=
    bounded_notOpened (s := s.afterOpen port) hs (bounded_afterOpen h.bounded port)
  have hopens : (s.afterOpen port).notOpened.opens = s.opens ++ [s.startPort] :=
    notOpened_opens _
  have hcount := h.count_snoc hopens hrank
  by_cases hlast : s.retry + 1 = 6
  · have hother : s.toggled ∈ s.opens := h.other hs (Or.inl (by omega))
    obtain ⟨hret, hstart, hport⟩ : (s.afterOpen port).notOpened.returned ≠ none ∧
        (s.afterOpen port).notOpened.nStartPort = s.nStartPort ∧
        (s.afterOpen port).notOpened.startPort = s.startPort := by
      simp [Negotiator.notOpened, afterOpen, hlast]
    exact ⟨hbounded, hcount, hstart.trans h.start, hport ▸ h.current, h.range_snoc hopens,
      fun hnone ↦ absurd hnone hret, fun _ ↦ h.both_snoc hopens hother⟩
  · by_cases hthird : (s.retry + 1) % 3 = 0
    · obtain ⟨hret, hstart, hport⟩ : (s.afterOpen port).notOpened.returned = none ∧
          (s.afterOpen port).notOpened.nStartPort = s.nStartPort ∧
            (s.afterOpen port).notOpened.startPort = s.toggled := by
        simp [Negotiator.notOpened, afterOpen, hlast, hthird, hs, toggled]
      exact h.toggle hopens hret hbounded hrank hstart hport
    · obtain ⟨hret, hstart, hport, hretry, hdata, htoggled⟩ :
          (s.afterOpen port).notOpened.returned = none ∧
            (s.afterOpen port).notOpened.nStartPort = s.nStartPort ∧
            (s.afterOpen port).notOpened.startPort = s.startPort ∧
            (s.afterOpen port).notOpened.retry = s.retry + 1 ∧
            (s.afterOpen port).notOpened.retryData = s.retryData ∧
            (s.afterOpen port).notOpened.toggled = s.toggled := by
        simp [Negotiator.notOpened, afterOpen, hlast, hthird, hs, toggled]
      refine ⟨hbounded, hcount, hstart.trans h.start, hport ▸ h.current, h.range_snoc hopens,
        fun _ hmoved ↦ ?_, fun hgave ↦ absurd hret hgave.1⟩
      -- the counter was at three before, since the third failure changes the port
      have hbefore : 3 ≤ s.retry ∨ 0 < s.retryData := by omega
      rw [htoggled, hopens]
      exact List.mem_append_left _ (h.other hs hbefore)

theorem Fair.noCommand (h : Fair nStartPort s) (hs : s.returned = none) (port : TCPPort)
    (r : Received × TCPPort) : Fair nStartPort ((s.afterOpen port).heard r).noCommand := by
  obtain ⟨hbounded, hrank⟩ :=
    bounded_noCommand (s := s.afterOpen port) hs (bounded_afterOpen h.bounded port) r
  have hopens : ((s.afterOpen port).heard r).noCommand.opens = s.opens ++ [s.startPort] :=
    noCommand_opens _
  by_cases hlast : s.retryData + 1 = 4
  · have hother : s.toggled ∈ s.opens := h.other hs (Or.inr (by omega))
    obtain ⟨hret, hstart, hport⟩ : ((s.afterOpen port).heard r).noCommand.returned ≠ none ∧
        ((s.afterOpen port).heard r).noCommand.nStartPort = s.nStartPort ∧
        ((s.afterOpen port).heard r).noCommand.startPort = s.startPort := by
      simp [Negotiator.noCommand, heard, afterOpen, hlast]
    exact ⟨hbounded, h.count_snoc hopens hrank, hstart.trans h.start, hport ▸ h.current,
      h.range_snoc hopens, fun hnone ↦ absurd hnone hret, fun _ ↦ h.both_snoc hopens hother⟩
  · obtain ⟨hret, hstart, hport⟩ : ((s.afterOpen port).heard r).noCommand.returned = none ∧
        ((s.afterOpen port).heard r).noCommand.nStartPort = s.nStartPort ∧
          ((s.afterOpen port).heard r).noCommand.startPort = s.toggled := by
      simp [Negotiator.noCommand, heard, afterOpen, hlast, hs, toggled]
    exact h.toggle hopens hret hbounded hrank hstart hport

theorem Fair.acknowledge (h : Fair nStartPort s) (hs : s.returned = none) (machine : Byte)
    (i : PassInput) (port : TCPPort) (r : Received × TCPPort) :
    Fair nStartPort (((s.afterOpen port).heard r).acknowledge machine i r.1.packet) := by
  have hret : (((s.afterOpen port).heard r).acknowledge machine i r.1.packet).returned ≠ none := by
    simp [Negotiator.acknowledge]
  obtain ⟨hbounded, hrank⟩ := bounded_last hs h.bounded hret
  refine ⟨hbounded, h.count_snoc rfl hrank, h.start, h.current, h.range_snoc rfl,
    fun hnone ↦ absurd hnone hret, fun hgave ↦ ?_⟩
  exact absurd hgave.2 (by simp [Negotiator.acknowledge])

theorem Fair.pass (h : Fair nStartPort s) (machine : Byte) (i : PassInput) :
    Fair nStartPort (s.pass machine i) := by
  by_cases hs : s.returned = none
  · rcases pass_cases machine i hs with
      ⟨-, port, heq⟩ | ⟨socket, -, ⟨-, heq⟩ | ⟨-, heq⟩⟩ <;> rw [heq]
    · exact h.notOpened hs port
    · exact h.noCommand hs _ (i.got socket)
    · exact h.acknowledge hs machine i _ (i.got socket)
  · rw [pass_returned hs]
    exact h

theorem fair_drive (machine : Byte) (nStartPort : ℕ) (port : TCPPort) (input : ℕ → PassInput)
    (n : ℕ) :
    Fair nStartPort
      (Transition.drive (Negotiator.pass machine) input n (start nStartPort port)) := by
  have hkeep : ∀ (i : PassInput) (s : Negotiator), True → Fair nStartPort s →
      Fair nStartPort (s.pass machine i) := fun i _ _ h ↦ h.pass machine i
  exact Transition.drive_invariant (fun _ ↦ trivial) hkeep (fair_start nStartPort port) n

/-- The negotiation ends within twenty-four passes and makes no more calls of
`Open` than that, all of them for one of the two ports; if it gives up without a
frame, it has opened both. -/
theorem negoiateChannel_bounded_fair (machine : Byte) (nStartPort : ℕ) (port : TCPPort)
    (input : ℕ → PassInput) :
    (∃ n ≤ 24, (Transition.drive (Negotiator.pass machine) input n
        (start nStartPort port)).returned ≠ none) ∧
      ∀ n s, Transition.drive (Negotiator.pass machine) input n (start nStartPort port) = s →
        s.opens.length ≤ 24 ∧ (∀ p ∈ s.opens, p = nStartPort ∨ p = nStartPort + 1) ∧
        (s.GaveUp → nStartPort ∈ s.opens ∧ nStartPort + 1 ∈ s.opens) := by
  refine ⟨pass_halts machine nStartPort port input, ?_⟩
  rintro n s rfl
  have hfair := fair_drive machine nStartPort port input n
  exact ⟨(Nat.le_add_right _ _).trans hfair.count, hfair.range, hfair.both⟩

end Negotiator

/-! ## The connection given up -/

namespace TCPPort

/-- Behind the bytes the peer closes the connection, rather than falling silent
or failing. -/
def hungUp (outcomes : List Recv) : Bool :=
  (outcomes.dropWhile Recv.isData).head? == some .closed

theorem receiveFrame_unconnected {port : TCPPort} (hport : port.bConnected = false) (cmd : Packet)
    (outcomes : List Recv) : (port.receiveFrame cmd outcomes).1.thrown = some unConnected := by
  cases outcomes <;>
    simp [receiveFrame, reads, read, hport, Packet.receiveFrameFrom, Packet.scanFrame]

/-- A receiver left with nothing has seen the end of the data, and what the end
was decides about the port. -/
theorem receiveFrame_silent {port : TCPPort} (hport : port.bConnected = true) (cmd : Packet)
    (outcomes : List Recv) (hempty : (port.receiveFrame cmd outcomes).1.packet.strCache = []) :
    (port.receiveFrame cmd outcomes).2 = if hungUp outcomes then port.close else port := by
  obtain ⟨bs, rest, rfl, hrest⟩ := exists_data_prefix outcomes
  obtain ⟨r, tail, hreads, hr, -⟩ := reads_end hport hrest
  have hresults : port.reads (bs.map Recv.data ++ rest) = bs.map .byte ++ r :: tail := by
    rw [reads_data hport, hreads]
  have hleft : (cmd.receiveFrameFrom (bs.map .byte ++ r :: tail)).rest = tail := by
    refine (cmd.receiveFrameFrom_stop bs hr tail).resolve_left (not_not.mpr ?_)
    rw [← hresults]
    exact hempty
  have hused : (bs.map ReadResult.byte ++ r :: tail).length - tail.length = bs.length + 1 := by
    simp only [List.length_append, List.length_map, List.length_cons]
    omega
  have hafter : (port.receiveFrame cmd (bs.map Recv.data ++ rest)).2 =
      (port.read (rest.headD .again)).2 := by
    have hcall : (port.receiveFrame cmd (bs.map Recv.data ++ rest)).2 =
        port.afterReads ((port.reads (bs.map Recv.data ++ rest)).length -
          (cmd.receiveFrameFrom (port.reads (bs.map Recv.data ++ rest))).rest.length)
          (bs.map Recv.data ++ rest) := rfl
    rw [hcall, hresults, hleft, hused, afterReads_data hport, afterReads_one]
  have hend : hungUp (bs.map Recv.data ++ rest) = (rest.head? == some .closed) := by
    have hdrop : (bs.map Recv.data ++ rest).dropWhile Recv.isData =
        rest.dropWhile Recv.isData := by
      apply List.dropWhile_append_of_pos
      intro o ho
      obtain ⟨b, -, rfl⟩ := List.mem_map.mp ho
      rfl
    rw [hungUp, hdrop]
    cases rest with
    | nil => rfl
    | cons outcome rest =>
        cases outcome with
        | data b => exact absurd rfl (hrest b rest)
        | again => rfl
        | closed => rfl
        | error err => rfl
  rw [hafter, hend]
  cases rest with
  | nil => simp [read, hport]
  | cons outcome rest =>
      cases outcome with
      | data b => exact absurd rfl (hrest b rest)
      | again => simp [read, hport]
      | closed => simp [read, hport]
      | error err => simp [read, hport]

end TCPPort

namespace Negotiator

variable {s : Negotiator} {machine : Byte} {i : PassInput}

/-- Before a pass that may be the last one: a sixth open that fails finds the port
closed or with a socket it closes, and a fourth connection without a frame has
such a socket and is closed by the peer. -/
def ClosesOnLast (i : PassInput) (s : Negotiator) : Prop :=
  (s.retry = 5 → (∀ socket, ¬ i.Opens socket) → s.port.bConnected = false ∨ 0 < s.port.socketID) ∧
    (s.retryData = 3 → ∀ socket, i.Opens socket → (i.got socket).1.packet.strCache = [] →
      0 < socket ∧ TCPPort.hungUp i.received = true)

theorem noCommand_port (s : Negotiator) : s.noCommand.port = s.port := by
  unfold noCommand
  dsimp only
  split_ifs <;> rfl

theorem pass_notOpened_bConnected (machine : Byte) (hs : s.returned = none)
    (hnever : ∀ socket, ¬ i.Opens socket) :
    (s.pass machine i).port.bConnected = s.port.close.bConnected := by
  rcases s.port.openRemote_cases i with ⟨socket, hopens, -⟩ | ⟨-, port, heq⟩
  · exact absurd hopens (hnever socket)
  · have hpass : (s.pass machine i).port = port := by
      simp only [pass, hs, heq, notOpened]
      split_ifs <;> rfl
    rw [hpass]
    exact TCPPort.openRemote_bConnected heq

theorem got_port {socket : ℤ} (hempty : (i.got socket).1.packet.strCache = []) :
    (i.got socket).2.bConnected = false ↔ 0 < socket ∧ TCPPort.hungUp i.received = true := by
  have hport : (i.got socket).2 =
      if TCPPort.hungUp i.received then (TCPPort.mk socket true).close else ⟨socket, true⟩ :=
    TCPPort.receiveFrame_silent rfl _ _ hempty
  rw [hport]
  cases TCPPort.hungUp i.received with
  | true =>
      have hclose := (TCPPort.mk socket true).close_bConnected
      simpa using hclose
  | false => simp

theorem pass_leavesClosed_iff (hs : s.returned = none) (hb : s.Bounded) :
    ((s.pass machine i).GaveUp → (s.pass machine i).port.isOpen = false) ↔ ClosesOnLast i s := by
  have hacks := hb.silent hs
  rcases pass_cases machine i hs with
    ⟨hnever, port, heq⟩ | ⟨socket, hopens, ⟨hempty, heq⟩ | ⟨hne, heq⟩⟩
  · have hport := pass_notOpened_bConnected machine hs hnever
    have hgave : (s.pass machine i).GaveUp ↔ s.retry = 5 := by
      rw [heq]
      by_cases hlast : s.retry + 1 = 6
      · simp only [GaveUp, notOpened, afterOpen, hlast, if_true]
        exact iff_of_true ⟨by simp, hacks⟩ (by omega)
      · refine iff_of_false (fun hgave ↦ hgave.1 ?_) (by omega)
        by_cases hthird : (s.retry + 1) % 3 = 0 <;>
          simp [notOpened, afterOpen, hlast, hthird, hs]
    rw [hgave, TCPPort.isOpen, hport, TCPPort.close_bConnected]
    refine ⟨fun h ↦ ⟨fun hretry _ ↦ h hretry, fun _ socket hopens ↦ ?_⟩, fun h hretry ↦ ?_⟩
    · exact absurd hopens (hnever socket)
    · exact h.1 hretry hnever
  · have hport : (s.pass machine i).port = (i.got socket).2 := by
      rw [heq, noCommand_port]
      rfl
    have hgave : (s.pass machine i).GaveUp ↔ s.retryData = 3 := by
      rw [heq]
      by_cases hlast : s.retryData + 1 = 4
      · simp only [GaveUp, noCommand, heard, afterOpen, hlast, if_true]
        exact iff_of_true ⟨by simp, hacks⟩ (by omega)
      · refine iff_of_false (fun hgave ↦ hgave.1 ?_) (by omega)
        simp [noCommand, heard, afterOpen, hlast, hs]
    rw [hgave, TCPPort.isOpen, hport, got_port hempty]
    refine ⟨fun h ↦ ⟨fun _ hnever ↦ absurd hopens (hnever socket), ?_⟩, fun h hdata ↦ ?_⟩
    · intro hdata socket' hopens' _
      obtain rfl : socket = socket' := by simpa using hopens.2.symm.trans hopens'.2
      exact h hdata
    · exact h.2 hdata socket hopens hempty
  · refine iff_of_true (fun hgave ↦ ?_) ⟨fun _ hnever ↦ absurd hopens (hnever socket), ?_⟩
    · rw [heq] at hgave
      exact absurd hgave.2 (by simp [acknowledge])
    · intro _ socket' hopens' hempty
      obtain rfl : socket = socket' := by simpa using hopens.2.symm.trans hopens'.2
      exact absurd hempty hne

/-- A negotiation that has given up leaves the port closed, so that the next
`GetCommand` finds it unconnected. -/
def LeavesClosed (s : Negotiator) : Prop :=
  s.GaveUp → s.port.isOpen = false ∧
    ∀ cmd outcomes, (s.port.receiveFrame cmd outcomes).1.thrown = some unConnected

theorem leavesClosed_iff : s.LeavesClosed ↔ (s.GaveUp → s.port.isOpen = false) := by
  refine ⟨fun h hgave ↦ (h hgave).1, fun h hgave ↦ ⟨h hgave, fun cmd outcomes ↦ ?_⟩⟩
  exact TCPPort.receiveFrame_unconnected (h hgave) cmd outcomes

/-- The port is left closed by every negotiation that gives up exactly if each
pass that is the last one closes it: six failed opens on a port that `Open` can
close, or four connections of which the peer closes the last. -/
theorem gaveUp_leavesClosed_iff (machine : Byte) (nStartPort : ℕ) (port : TCPPort)
    (input : ℕ → PassInput) :
    (∀ n, (Transition.drive (pass machine) input n (start nStartPort port)).LeavesClosed) ↔
      ∀ n, (Transition.drive (pass machine) input n (start nStartPort port)).returned = none →
        ClosesOnLast (input n)
          (Transition.drive (pass machine) input n (start nStartPort port)) := by
  have hbounded := drive_bounded machine nStartPort port input
  constructor
  · intro hclosed n hrun
    exact (pass_leavesClosed_iff hrun (hbounded n)).mp (leavesClosed_iff.mp (hclosed (n + 1)))
  · intro hlast n
    rw [leavesClosed_iff]
    induction n with
    | zero => exact fun hgave ↦ absurd rfl hgave.1
    | succ n ih =>
        by_cases hrun :
          (Transition.drive (pass machine) input n (start nStartPort port)).returned = none
        · exact (pass_leavesClosed_iff hrun (hbounded n)).mpr (hlast n hrun)
        · rw [Transition.drive, pass_returned hrun]
          exact ih

/-- The server accepts the connection and says nothing. -/
def silent : PassInput := ⟨5, .success 5, [], [], 0x00, .sent⟩

/-- After four silent connections the call returns 0 with the last one open, and
the next command is read from it. -/
theorem gaveUp_with_open_connection :
    let s := Transition.drive (pass 0x01) (fun _ ↦ silent) 4 (start 6000 ⟨-1, false⟩)
    s.returned = some 0 ∧ s.acks = [] ∧ s.port.isOpen = true ∧
      (s.port.receiveFrame ⟨[], []⟩ (Packet.requestFrame.map .data)).1.packet.strCache =
        Packet.requestFrame := by
  decide +kernel

end Negotiator

/-! ## The result of `NegoiateDataChannel` -/

@[simp] theorem ChannelEvent.isConnect_connect (nPort : Word) (ok : Bool) :
    (ChannelEvent.connect nPort ok).isConnect = true := rfl

@[simp] theorem ChannelEvent.isConnect_negotiated (nPort : Word) :
    (ChannelEvent.negotiated nPort).isConnect = false := rfl

namespace ChannelRun

/-- From one state of a caller to a later one: so many readings of `IsPowerOff`
were made, and these events were logged. -/
structure After (r : ChannelRun) (readings : ℕ) (events : List ChannelEvent) (r' : ChannelRun) :
    Prop where
  power : r'.power = fun n ↦ r.power (n + readings)
  log : r'.log = r.log ++ events

theorem After.refl (r : ChannelRun) : After r 0 [] r := ⟨rfl, by simp⟩

theorem After.trans {r₀ r₁ r₂ : ChannelRun} {j k : ℕ} {events more : List ChannelEvent}
    (h₁ : After r₀ j events r₁) (h₂ : After r₁ k more r₂) :
    After r₀ (j + k) (events ++ more) r₂ := by
  constructor
  · rw [h₂.power, h₁.power]
    funext n
    change r₀.power (n + k + j) = r₀.power (n + (j + k))
    rw [Nat.add_assoc, Nat.add_comm k j]
  · rw [h₂.log, h₁.log, List.append_assoc]

theorem after_connect (nPort : Word) (r : ChannelRun) :
    After r 0 [.connect nPort (r.connect nPort).1] (r.connect nPort).2 := ⟨rfl, rfl⟩

theorem after_reading (r : ChannelRun) : After r 1 [] r.afterPower :=
  ⟨rfl, (List.append_nil r.log).symm⟩

theorem after_negotiate (machine : Byte) (nStartPort : ℕ) (r : ChannelRun) :
    After r 0 [.negotiated (r.negotiate machine nStartPort).1] (r.negotiate machine nStartPort).2 :=
  ⟨rfl, rfl⟩

theorem After.observed {r₀ r₁ : ChannelRun} {j k : ℕ} {events : List ChannelEvent}
    (h : After r₀ j events r₁) (hoff : ∃ n < k, r₁.power n = true) :
    ∃ n < j + k, r₀.power n = true := by
  obtain ⟨n, hn, hpower⟩ := hoff
  rw [h.power] at hpower
  exact ⟨n + j, by omega, hpower⟩

/-- The attempts of the inner loop: at most `retry` of them, the last one
successful if it ends connected. -/
theorem connectTries_after (nPort : Word) (retry : ℕ) (r : ChannelRun) :
    ∃ readings events, After r readings events (connectTries nPort retry r).2 ∧
      events.length ≤ retry ∧ (∀ e ∈ events, e.isConnect = true) ∧
      ((connectTries nPort retry r).1 = .connected →
        events.getLast? = some (.connect nPort true)) ∧
      ((connectTries nPort retry r).1 = .poweredOff → ∃ n < readings, r.power n = true) := by
  induction retry generalizing r with
  | zero => exact ⟨0, [], .refl r, le_rfl, by simp, by simp [connectTries], by simp [connectTries]⟩
  | succ retry ih =>
      have hconnect := after_connect nPort r
      rw [connectTries_succ, ← connect_fst nPort r]
      by_cases hok : (r.connect nPort).1 = true
      · rw [hok] at hconnect ⊢
        exact ⟨0, _, hconnect, by simp, by simp, by simp, by simp⟩
      · have hread := hconnect.trans (after_reading (r.connect nPort).2)
        rw [if_neg hok]
        by_cases hoff : r.power 0 = true
        · rw [if_pos hoff]
          exact ⟨1, _, hread, by simp, by simp, by simp,
            fun _ ↦ ⟨0, Nat.one_pos, hoff⟩⟩
        · rw [if_neg hoff]
          obtain ⟨k, more, hmore, hlen, hall, hlast, hpower⟩ := ih (r.connect nPort).2.afterPower
          refine ⟨_, _, hread.trans hmore, ?_, ?_, fun hend ↦ ?_, fun hend ↦ ?_⟩
          · simp only [List.append_nil, List.length_append, List.length_singleton]
            omega
          · intro e he
            rcases List.mem_append.mp he with hfirst | hrest
            · obtain rfl : e = .connect nPort (r.connect nPort).1 := by simpa using hfirst
              rfl
            · exact hall e hrest
          · rw [List.getLast?_append, hlast hend]
            rfl
          · exact hread.observed (hpower hend)

theorem waitControl_after (waits : ℕ) (r : ChannelRun) :
    ∃ readings, After r readings [] (waitControl waits r).2 ∧
      ((waitControl waits r).1 = false → ∃ n < readings, r.power n = true) := by
  induction waits generalizing r with
  | zero => exact ⟨0, .refl r, by simp [waitControl]⟩
  | succ waits ih =>
      rw [waitControl]
      by_cases hoff : r.power 0 = true
      · rw [if_pos hoff]
        exact ⟨1, after_reading r, fun _ ↦ ⟨0, Nat.one_pos, hoff⟩⟩
      · rw [if_neg hoff]
        obtain ⟨k, hafter, hpower⟩ := ih r.afterPower
        exact ⟨1 + k, (after_reading r).trans hafter,
          fun hend ↦ (after_reading r).observed (hpower hend)⟩

/-- What the two loops do: one negotiation, at most three attempts to connect to
the port it assigned, and at most one more negotiation. -/
structure Opened (r : ChannelRun) (run : ChannelEnd × ChannelRun) (readings : ℕ)
    (events : List ChannelEvent) : Prop where
  after : After r readings events run.2
  negotiations : (events.filter fun e ↦ !e.isConnect).length ≤ 2
  connects : (events.filter ChannelEvent.isConnect).length ≤ 3
  connected : ∀ nPort, run.1 = .connected nPort →
    nPort ≠ 0 ∧ events.getLast? = some (.connect nPort true) ∧ .negotiated nPort ∈ events
  poweredOff : run.1 = .poweredOff → ∃ n < readings, r.power n = true

theorem openChannel_opened (machine : Byte) (nStartPort : ℕ) (r : ChannelRun) :
    ∃ readings events, Opened r (openChannel machine nStartPort r) readings events := by
  have hfirst := after_negotiate machine nStartPort r
  rw [openChannel, channelLoop]
  obtain ⟨nPort, hport⟩ : ∃ p, p = (r.negotiate machine nStartPort).1 := ⟨_, rfl⟩
  rw [← hport] at hfirst ⊢
  generalize (r.negotiate machine nStartPort).2 = f at hfirst ⊢
  by_cases hzero : nPort = 0
  · rw [if_pos hzero]
    exact ⟨_, _, hfirst, by simp, by simp,
      by simp, by simp⟩
  · rw [if_neg hzero]
    obtain ⟨k, attempts, htries, hlen, hall, hlast, hoff⟩ := connectTries_after nPort 3 f
    have hconnects : attempts.filter ChannelEvent.isConnect = attempts :=
      List.filter_eq_self.mpr hall
    have hothers : (attempts.filter fun e ↦ !e.isConnect) = [] := by
      rw [List.filter_eq_nil_iff]
      intro e he
      simp [hall e he]
    have htwo := hfirst.trans htries
    rcases hend : connectTries nPort 3 f with ⟨_ | _ | _, f'⟩
    · rw [hend] at htwo hlast
      refine ⟨_, _, htwo, ?_, ?_, ?_, by simp⟩
      · simp [hothers]
      · simpa [hconnects] using hlen
      · intro p hp
        obtain rfl : nPort = p := by simpa using hp
        refine ⟨hzero, ?_, by simp⟩
        rw [List.getLast?_append, hlast rfl]
        rfl
    · rw [hend] at htwo hoff
      refine ⟨_, _, htwo, ?_, ?_, by simp, fun _ ↦ hfirst.observed (hoff rfl)⟩
      · simp [hothers]
      · simpa [hconnects] using hlen
    · rw [hend] at htwo
      have hread := htwo.trans (after_reading f')
      by_cases hpower : f'.power 0 = true
      · simp only [hpower, if_true]
        refine ⟨_, _, hread, ?_, ?_, by simp, fun _ ↦ ?_⟩
        · simp [hothers]
        · simpa [hconnects] using hlen
        · exact htwo.observed ⟨0, Nat.one_pos, hpower⟩
      · simp only [hpower, if_false, channelLoop, Bool.false_eq_true]
        refine ⟨_, _, hread.trans (after_negotiate machine nStartPort f'.afterPower), ?_, ?_,
          by simp, by simp⟩
        · simp [hothers]
        · simpa [hconnects] using hlen

/-- The three kinds of result of `NegoiateDataChannel`, once the control channel
is there.  A port is returned behind a successful connection to it, 0 only when
a reading found the modem off, and -1 with every reading on sets the error. -/
theorem negoiateDataChannel_outcome (machine : Byte) (nDataPort waits : ℕ) (bExt : Bool)
    (r : ChannelRun) :
    ∃ readings events,
      After r readings events (r.negoiateDataChannel machine nDataPort waits bExt).2.2 ∧
      (events.filter fun e ↦ !e.isConnect).length ≤ 2 ∧
      (events.filter ChannelEvent.isConnect).length ≤ 3 ∧
      ((r.negoiateDataChannel machine nDataPort waits bExt).1 ≠ 0 →
        (r.negoiateDataChannel machine nDataPort waits bExt).1 ≠ -1 →
        ∃ nPort : Word, (r.negoiateDataChannel machine nDataPort waits bExt).1 = nPort.toNat ∧
          events.getLast? = some (.connect nPort true) ∧ .negotiated nPort ∈ events ∧
          (r.negoiateDataChannel machine nDataPort waits bExt).2.1 = false) ∧
      ((r.negoiateDataChannel machine nDataPort waits bExt).1 = 0 →
        ∃ n < readings, r.power n = true) ∧
      ((r.negoiateDataChannel machine nDataPort waits bExt).1 = -1 →
        (∀ n < readings, r.power n = false) →
        (r.negoiateDataChannel machine nDataPort waits bExt).2.1 = true) := by
  obtain ⟨j, hwait, hoff⟩ := waitControl_after waits r
  unfold negoiateDataChannel
  rcases hwaited : waitControl waits r with ⟨_ | _, w⟩ <;> rw [hwaited] at hwait hoff
  · exact ⟨j, [], hwait, by simp, by simp, by simp, fun _ ↦ hoff rfl, by simp⟩
  · obtain ⟨k, events, hopened⟩ := openChannel_opened machine nDataPort w
    have hafter := hwait.trans hopened.after
    simp only [if_true]
    rcases hrun : openChannel machine nDataPort w with ⟨_ | _ | _, f⟩
    · rename_i nPort
      rw [hrun] at hopened hafter
      obtain ⟨hne, hlast, hmem⟩ := hopened.connected nPort rfl
      have hpos : nPort.toNat ≠ 0 := fun h ↦ hne (BitVec.eq_of_toNat_eq h)
      refine ⟨_, _, hafter, hopened.negotiations, hopened.connects, ?_, ?_, ?_⟩
      · exact fun _ _ ↦ ⟨nPort, rfl, hlast, hmem, rfl⟩
      · intro hzero
        exact absurd (Int.natCast_eq_zero.mp hzero) hpos
      · intro hneg
        exact absurd hneg (by dsimp only; omega)
    · rw [hrun] at hopened hafter
      refine ⟨_, _, hafter, hopened.negotiations, hopened.connects, by simp, fun _ ↦ ?_, by simp⟩
      exact hwait.observed (hopened.poweredOff rfl)
    · rw [hrun] at hopened hafter
      have hread := hafter.trans (after_reading f)
      refine ⟨_, _, hread, ?_, ?_, by simp, by simp, fun _ hon ↦ ?_⟩
      · simpa using hopened.negotiations
      · simpa using hopened.connects
      · -- the last reading is the one in front of the flag
        have hlast : f.power 0 = false := by
          rw [hafter.power]
          exact hon _ (by omega)
        simp [hlast]

end ChannelRun

end DeviceAgent
