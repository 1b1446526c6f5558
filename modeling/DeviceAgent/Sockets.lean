import DeviceAgent.TcpPort
import DeviceAgent.Foundations.Handles
import DeviceAgent.Foundations.Procedure
import DeviceAgent.Foundations.Transition

/-!
# The sockets behind a TCP port

`TCPPort::Connect` in full: the name is resolved to addresses, which are tried in turn, with
a new socket if the last one was closed.  The port as the rest of the program sees it has
only a descriptor and a flag; here the calls of `socket` and `close` are kept in a ledger,
and the failures for want of a route are counted as the source counts them.

`Connect` does not ask whether the port is connected.  On a connected port a failure would
close the socket and leave the flag set, so everything depends on `negoiateChannel` closing
the port before it hands out the number that is connected to.
-/

namespace DeviceAgent

open Handles Procedure

/-- What the system does for one address: the result of `socket`, if it is called, and the
error of `connect`, if there is one. -/
structure Address where
  socket : ℤ
  error : Option ℤ
  deriving DecidableEq, Repr

def EHOSTUNREACH : ℤ := 113

def ENETUNREACH : ℤ := 101

def isNoRoute (err : ℤ) : Bool := err == EHOSTUNREACH || err == ENETUNREACH

/-- What `getaddrinfo` finds, nothing if the name is not resolved. -/
abbrev Lookup := Option (List Address)

structure SocketPort where
  port : TCPPort
  nNoRoute : ℕ
  ledger : Ledger ℤ
  /-- The errors of the calls of `connect`, nothing for a success. -/
  attempts : List (Option ℤ)
  deriving DecidableEq, Repr

namespace SocketPort

/-- The constructor. -/
def fresh : SocketPort := ⟨⟨-1, false⟩, 0, .empty, []⟩

/-- `socketID = socket(..)`. -/
def newSocket (socket : ℤ) (s : SocketPort) : SocketPort :=
  { s with
    port := { s.port with socketID := socket }
    ledger := s.ledger.record socket }

def isUnReachable (s : SocketPort) : Bool := decide (0 < s.nNoRoute)

/-- `connect(socketID, ..)` and what is made of its result. -/
def connectSocket (error : Option ℤ) (s : SocketPort) : Bool × SocketPort :=
  match error with
  | none =>
      (true, { s with
        port := { s.port with bConnected := true }
        nNoRoute := 0
        attempts := s.attempts ++ [none] })
  | some err =>
      (false, { s with
        port := { s.port with socketID := -1 }
        nNoRoute := if isNoRoute err then s.nNoRoute + 1 else s.nNoRoute
        ledger := s.ledger.release s.port.socketID
        attempts := s.attempts ++ [some err] })

def ensureSocket (socket : ℤ) (s : SocketPort) : SocketPort :=
  if s.port.socketID = -1 then s.newSocket socket else s

/-- One turn of the loop over the addresses, and whether it ends the loop. -/
def tryAddress (a : Address) (s : SocketPort) : Bool × SocketPort :=
  let s := s.ensureSocket a.socket
  if s.port.socketID = -1 then (false, s) else s.connectSocket a.error

def connect (lookup : Lookup) (s : SocketPort) : Bool × SocketPort :=
  match lookup with
  | none => (false, s)
  | some addresses =>
      let r := tryEach tryAddress addresses s
      (r.1 && r.2.port.bConnected, r.2)

def close (s : SocketPort) : SocketPort :=
  if 0 < s.port.socketID then
    { s with port := ⟨-1, false⟩, ledger := s.ledger.release s.port.socketID }
  else s

/-- `Open`; `socket` is what its own call of `socket` returns. -/
def openRemote (socket : ℤ) (lookup : Lookup) (s : SocketPort) : Bool × SocketPort :=
  let s := s.close.newSocket socket
  if socket < 0 then (false, s) else s.connect lookup

end SocketPort

/-- What the program does with a port.  `assigned` is the end of a negotiation: the port is
closed and connected to the number assigned, until a try succeeds or the tries are used up. -/
inductive PortCall (ω : Type)
  | openRemote (socket : ℤ) (outcome : ω)
  | assigned (tries : List ω)
  | hangUp
  | close
  deriving DecidableEq, Repr

namespace PortCall

variable {ω ω' : Type}

/-- The same call, with outcomes of another kind. -/
def Same : PortCall ω → PortCall ω' → Prop
  | .openRemote socket _, .openRemote socket' _ => socket = socket'
  | .assigned tries, .assigned tries' => tries'.length = tries.length
  | .hangUp, .hangUp => True
  | .close, .close => True
  | _, _ => False

end PortCall

namespace TCPPort

def perform : PortCall ConnectResult → TCPPort → Bool × TCPPort
  | .openRemote socket outcome, port => port.openRemote socket outcome
  | .assigned tries, port => tryEach (fun outcome port ↦ port.connect outcome) tries port.close
  | .hangUp, port => (false, (port.read .closed).2)
  | .close, port => (false, port.close)

end TCPPort

namespace SocketPort

/-- A `Read` that finds the peer gone. -/
def hangUp (s : SocketPort) : SocketPort := if s.port.bConnected then s.close else s

def perform : PortCall Lookup → SocketPort → Bool × SocketPort
  | .openRemote socket lookup, s => s.openRemote socket lookup
  | .assigned tries, s => tryEach connect tries s.close
  | .hangUp, s => (false, s.hangUp)
  | .close, s => (false, s.close)

def step (s : SocketPort) (call : PortCall Lookup) : Option SocketPort := some (s.perform call).2

/-! ## The port as the program sees it -/

theorem close_port (s : SocketPort) : s.close.port = s.port.close := by
  unfold close TCPPort.close
  split_ifs <;> rfl

theorem hangUp_port (s : SocketPort) : s.hangUp.port = (s.port.read .closed).2 := by
  unfold hangUp TCPPort.read
  split_ifs
  · exact s.close_port
  · rfl

@[simp] theorem newSocket_port (socket : ℤ) (s : SocketPort) :
    (s.newSocket socket).port = { s.port with socketID := socket } := rfl

theorem ensureSocket_bConnected (socket : ℤ) (s : SocketPort) :
    (s.ensureSocket socket).port.bConnected = s.port.bConnected := by
  unfold ensureSocket
  split_ifs <;> rfl

/-- Failed tries end without a socket; a success sets the flag. -/
theorem tryAddress_port (a : Address) (s : SocketPort) :
    ((s.tryAddress a).1 = true ∧ (s.tryAddress a).2.port.bConnected = true) ∨
      (s.tryAddress a).1 = false ∧
        (s.tryAddress a).2.port = { s.port with socketID := -1 } := by
  have hflag := s.ensureSocket_bConnected a.socket
  unfold tryAddress
  dsimp only
  split_ifs with hnone
  · exact Or.inr ⟨rfl, by rw [← hnone, ← hflag]⟩
  · cases a.error with
    | none => exact Or.inl ⟨rfl, rfl⟩
    | some err => exact Or.inr ⟨rfl, by simp only [connectSocket, hflag]⟩

theorem tryAddresses_port (addresses : List Address) (s : SocketPort) :
    Ends (fun s' ↦ s'.port = s.port ∨ s'.port = { s.port with socketID := -1 })
      (fun s' ↦ s'.port.bConnected = true) (tryEach tryAddress addresses s) := by
  refine Ends.tryEach (fun a _ s₁ hs₁ ↦ ?_) (Or.inl rfl)
  rcases s₁.tryAddress_port a with ⟨hok, hflag⟩ | ⟨hok, hport⟩
  · simp only [Ends, hok, if_true, hflag]
  · simp only [Ends, hok, Bool.false_eq_true, if_false, hport]
    rcases hs₁ with hs₁ | hs₁ <;> exact Or.inr (by rw [hs₁])

/-- The last test of `Connect` never fails. -/
theorem connect_some (addresses : List Address) (s : SocketPort) :
    s.connect (some addresses) = tryEach tryAddress addresses s := by
  have hends := s.tryAddresses_port addresses
  refine Prod.ext ?_ rfl
  change ((tryEach tryAddress addresses s).1 && _) = _
  cases hok : (tryEach tryAddress addresses s).1 with
  | false => rfl
  | true =>
      rw [Ends, if_pos hok] at hends
      exact hends

theorem connect_simulated (lookup : Lookup) (s : SocketPort) :
    ∃ outcome, s.port.connect outcome = Prod.map id port (s.connect lookup) := by
  cases lookup with
  | none => exact ⟨.unresolved, rfl⟩
  | some addresses =>
      have hends := s.tryAddresses_port addresses
      rw [connect_some]
      generalize tryEach tryAddress addresses s = r at hends ⊢
      obtain ⟨ok, s'⟩ := r
      cases ok with
      | true =>
          have hflag : true = s'.port.bConnected := (ends_true.mp hends).symm
          refine ⟨.success s'.port.socketID, ?_⟩
          simp only [TCPPort.connect, hflag, Prod.map_apply, id_eq]
      | false =>
          rcases ends_false.mp hends with hport | hport
          · exact ⟨.unresolved, by simp only [TCPPort.connect, Prod.map_apply, id_eq, hport]⟩
          · exact ⟨.refused, by simp only [TCPPort.connect, Prod.map_apply, id_eq, hport]⟩

theorem openRemote_simulated (socket : ℤ) (lookup : Lookup) (s : SocketPort) :
    ∃ outcome, s.port.openRemote socket outcome =
      Prod.map id port (s.openRemote socket lookup) := by
  obtain ⟨outcome, houtcome⟩ := connect_simulated lookup (s.close.newSocket socket)
  refine ⟨outcome, ?_⟩
  unfold openRemote TCPPort.openRemote
  rw [newSocket_port, close_port] at houtcome
  dsimp only
  split_ifs
  · simp [close_port]
  · exact houtcome

theorem perform_simulated (call : PortCall Lookup) (s : SocketPort) :
    ∃ call' : PortCall ConnectResult, call.Same call' ∧
      s.port.perform call' = Prod.map id port (s.perform call) := by
  cases call with
  | openRemote socket lookup =>
      obtain ⟨outcome, houtcome⟩ := s.openRemote_simulated socket lookup
      exact ⟨.openRemote socket outcome, rfl, houtcome⟩
  | assigned tries =>
      obtain ⟨outcomes, hlength, houtcomes⟩ :=
        tryEach_simulated (g := fun outcome port ↦ port.connect outcome) port connect_simulated
          tries s.close
      refine ⟨.assigned outcomes, hlength, ?_⟩
      rw [TCPPort.perform, ← close_port]
      exact houtcomes
  | hangUp => exact ⟨.hangUp, trivial, by simp [TCPPort.perform, perform, hangUp_port]⟩
  | close => exact ⟨.close, trivial, by simp [TCPPort.perform, perform, close_port]⟩

/-- Whatever the network does, a port with sockets and addresses behaves as one whose calls
of `Connect` have a single outcome. -/
theorem calls_refine (calls : List (PortCall Lookup)) (s : SocketPort) :
    ∃ calls' : List (PortCall ConnectResult), List.Forall₂ PortCall.Same calls calls' ∧
      performAll TCPPort.perform calls' s.port =
        Prod.map id port (performAll perform calls s) :=
  performAll_simulated port perform_simulated calls s

end SocketPort

/-! ## Every descriptor is closed once or held -/

def Lookup.Proper (lookup : Lookup) : Prop :=
  ∀ addresses ∈ lookup, ∀ a ∈ addresses, IsDescriptor a.socket

def PortCall.Proper : PortCall Lookup → Prop
  | .openRemote socket lookup => IsDescriptor socket ∧ Lookup.Proper lookup
  | .assigned tries => ∀ lookup ∈ tries, Lookup.Proper lookup
  | .hangUp => True
  | .close => True

namespace SocketPort

variable {s : SocketPort}

structure Sound (s : SocketPort) : Prop where
  accounts : s.ledger.Accounts s.port.socketID
  connected : s.port.bConnected = true → 0 < s.port.socketID

def Idle (s : SocketPort) : Prop := s.Sound ∧ s.port.bConnected = false

theorem idle_of_accounts (haccounts : s.ledger.Accounts s.port.socketID)
    (hflag : s.port.bConnected = false) : s.Idle := by
  refine ⟨⟨haccounts, fun h ↦ ?_⟩, hflag⟩
  rw [hflag] at h
  cases h

theorem idle_fresh : fresh.Idle := idle_of_accounts Ledger.accounts_empty rfl

theorem Sound.close (h : s.Sound) : s.close.Idle ∧ s.close.port.socketID = -1 := by
  unfold SocketPort.close
  split_ifs with hpos
  · exact ⟨idle_of_accounts (h.accounts.release hpos) rfl, rfl⟩
  · have hflag : s.port.bConnected = false := by
      by_contra htrue
      exact hpos (h.connected (by simpa using htrue))
    exact ⟨⟨h, hflag⟩, h.accounts.none hpos⟩

theorem Sound.hangUp (h : s.Sound) : s.hangUp.Sound := by
  unfold SocketPort.hangUp
  split_ifs
  · exact h.close.1.1
  · exact h

theorem Idle.newSocket (h : s.Idle) (hnone : s.port.socketID = -1) {socket : ℤ}
    (hsocket : IsDescriptor socket) : (s.newSocket socket).Idle := by
  have haccounts := h.1.accounts
  rw [hnone] at haccounts
  exact idle_of_accounts (haccounts.record hsocket) h.2

theorem Idle.ensureSocket (h : s.Idle) {socket : ℤ} (hsocket : IsDescriptor socket) :
    (s.ensureSocket socket).Idle := by
  unfold SocketPort.ensureSocket
  split_ifs with hnone
  · exact h.newSocket hnone hsocket
  · exact h

theorem Idle.connectSocket (h : s.Idle) (hpos : 0 < s.port.socketID) (error : Option ℤ) :
    Ends Idle Sound (s.connectSocket error) := by
  cases error with
  | none => exact ends_true.mpr ⟨h.1.accounts, fun _ ↦ hpos⟩
  | some err => exact ends_false.mpr (idle_of_accounts (h.1.accounts.release hpos) h.2)

theorem Idle.tryAddress (h : s.Idle) {a : Address} (ha : IsDescriptor a.socket) :
    Ends Idle Sound (s.tryAddress a) := by
  have hidle := h.ensureSocket ha
  unfold SocketPort.tryAddress
  dsimp only
  split_ifs with hnone
  · exact ends_false.mpr hidle
  · exact hidle.connectSocket (hidle.1.accounts.descriptor.resolve_left hnone) a.error

theorem Idle.connect (h : s.Idle) {lookup : Lookup} (hlookup : lookup.Proper) :
    Ends Idle Sound (s.connect lookup) := by
  cases lookup with
  | none => exact ends_false.mpr h
  | some addresses =>
      rw [connect_some]
      exact Ends.tryEach (fun a ha _ hs ↦ hs.tryAddress (hlookup addresses rfl a ha)) h

theorem sound_of_ends {r : Bool × SocketPort} (h : Ends Idle Sound r) : r.2.Sound :=
  ends_self.mp (h.imp And.left id)

theorem Sound.perform (h : s.Sound) {call : PortCall Lookup} (hcall : call.Proper) :
    (s.perform call).2.Sound := by
  obtain ⟨hidle, hnone⟩ := h.close
  cases call with
  | openRemote socket lookup =>
      have hnew := hidle.newSocket hnone hcall.1
      simp only [SocketPort.perform, openRemote]
      split_ifs
      · exact hnew.1
      · exact sound_of_ends (hnew.connect hcall.2)
  | assigned tries =>
      exact sound_of_ends (Ends.tryEach (fun lookup hl _ hs ↦ hs.connect (hcall lookup hl)) hidle)
  | hangUp => exact h.hangUp
  | close => exact hidle.1

/-- However a port is opened, negotiated, hung up on and closed, every descriptor it was
given has been closed exactly once, except the one it holds; and a port that says it is
connected holds one. -/
theorem sockets_accounted
    (h : Transition.Reaches step (fun _ call ↦ call.Proper) fresh s) :
    s.ledger.Balanced (held s.port.socketID) ∧
      (s.port.bConnected = true → held s.port.socketID = some s.port.socketID) := by
  have hsound : s.Sound := by
    refine h.invariant Sound (fun s call s' hs hcall hstep ↦ ?_) idle_fresh.1
    obtain rfl : (s.perform call).2 = s' := Option.some.inj hstep
    exact hs.perform hcall
  exact ⟨hsound.accounts.balanced, fun hflag ↦ held_pos (hsound.connected hflag)⟩

/-- The first address has no route and the second answers; the peer hangs up, the name is
not found for a while, and the port assigned is reached. -/
def secondAnswers : List (PortCall Lookup) :=
  [.openRemote 5 (some [⟨-1, some EHOSTUNREACH⟩, ⟨6, none⟩]), .hangUp,
    .assigned [none, some [⟨7, none⟩]]]

theorem meets_secondAnswers :
    Transition.Meets step (fun _ call ↦ call.Proper) secondAnswers fresh := by
  simp [secondAnswers, Transition.Meets, step, PortCall.Proper, Lookup.Proper, IsDescriptor]

theorem sockets_accounted_second :
    ∃ s, Transition.run step secondAnswers fresh = some s ∧
      s.ledger = ⟨[5, 6, 7], [5, 6]⟩ ∧ s.ledger.Balanced (held s.port.socketID) ∧
      (s.port.bConnected = true → held s.port.socketID = some s.port.socketID) := by
  obtain ⟨s, hrun, hledger⟩ := Transition.exists_run step secondAnswers fresh
    (fun s ↦ s.ledger = ⟨[5, 6, 7], [5, 6]⟩) (by decide)
  exact ⟨s, hrun, hledger, sockets_accounted (.of_run meets_secondAnswers hrun)⟩

/-- Without the `Close` before it, a failing `Connect` leaves a port connected to nothing. -/
example : ((fresh.openRemote 5 (some [⟨-1, none⟩])).2.connect (some [⟨-1, some 106⟩])).2.port =
    ⟨-1, true⟩ := by decide

/-! ## No route to the server -/

/-- A failure for want of a route with no success behind it. -/
def NoRouteSince (attempts : List (Option ℤ)) : Prop :=
  ∃ before err after, attempts = before ++ some err :: after ∧ isNoRoute err = true ∧ none ∉ after

theorem not_noRouteSince_success (attempts : List (Option ℤ)) :
    ¬ NoRouteSince (attempts ++ [none]) := by
  rintro ⟨before, err, after, hlog, -, hafter⟩
  rcases List.eq_nil_or_concat after with rfl | ⟨rest, last, rfl⟩
  · cases (List.append_inj' hlog rfl).2
  · rw [List.concat_eq_append, ← List.cons_append, ← List.append_assoc] at hlog
    obtain rfl : none = last := (List.cons.inj (List.append_inj' hlog rfl).2).1
    exact hafter (by simp)

theorem noRouteSince_failure (attempts : List (Option ℤ)) (err : ℤ) :
    NoRouteSince (attempts ++ [some err]) ↔ isNoRoute err = true ∨ NoRouteSince attempts := by
  constructor
  · rintro ⟨before, err', after, hlog, hroute, hafter⟩
    rcases List.eq_nil_or_concat after with rfl | ⟨rest, last, rfl⟩
    · obtain rfl : err = err' := Option.some.inj (List.cons.inj (List.append_inj' hlog rfl).2).1
      exact Or.inl hroute
    · rw [List.concat_eq_append, ← List.cons_append, ← List.append_assoc] at hlog
      exact Or.inr ⟨before, err', rest, (List.append_inj' hlog rfl).1, hroute,
        fun hmem ↦ hafter (by simp [hmem])⟩
  · rintro (hroute | ⟨before, err', after, rfl, hroute, hafter⟩)
    · exact ⟨attempts, err, [], rfl, hroute, by simp⟩
    · exact ⟨before, err', after ++ [some err], by simp, hroute, by simpa using hafter⟩

def Routed (s : SocketPort) : Prop := 0 < s.nNoRoute ↔ NoRouteSince s.attempts

theorem Routed.connectSocket (h : s.Routed) (error : Option ℤ) :
    (s.connectSocket error).2.Routed := by
  cases error with
  | none => exact iff_of_false (lt_irrefl 0) (not_noRouteSince_success s.attempts)
  | some err =>
      rw [Routed] at h
      refine Iff.trans ?_ (noRouteSince_failure s.attempts err).symm
      rw [← h]
      simp only [SocketPort.connectSocket]
      split_ifs with hroute
      · simp [hroute]
      · simp [hroute]

theorem Routed.close (h : s.Routed) : s.close.Routed := by
  unfold SocketPort.close
  split_ifs <;> exact h

theorem Routed.tryAddress (h : s.Routed) (a : Address) : (s.tryAddress a).2.Routed := by
  have hsame : (s.ensureSocket a.socket).Routed := by
    unfold SocketPort.ensureSocket
    split_ifs <;> exact h
  unfold SocketPort.tryAddress
  dsimp only
  split_ifs
  · exact hsame
  · exact hsame.connectSocket a.error

theorem Routed.connect (h : s.Routed) (lookup : Lookup) : (s.connect lookup).2.Routed := by
  cases lookup with
  | none => exact h
  | some addresses =>
      rw [connect_some]
      exact ends_self.mp (Ends.tryEach (fun a _ s hs ↦ ends_self.mpr (hs.tryAddress a)) h)

theorem Routed.perform (h : s.Routed) (call : PortCall Lookup) : (s.perform call).2.Routed := by
  cases call with
  | openRemote socket lookup =>
      simp only [SocketPort.perform, openRemote]
      split_ifs
      · exact h.close
      · exact Routed.connect (s := s.close.newSocket socket) h.close lookup
  | assigned tries =>
      exact ends_self.mp (Ends.tryEach (fun l _ s hs ↦ ends_self.mpr (hs.connect l)) h.close)
  | hangUp =>
      simp only [SocketPort.perform, hangUp]
      split_ifs
      · exact h.close
      · exact h
  | close => exact h.close

/-- A port says that the server cannot be reached, which makes the control thread reboot the
station, exactly while some `connect` has failed for want of a route and none has
succeeded since. -/
theorem isUnReachable_iff (h : Transition.Reaches step (fun _ _ ↦ True) fresh s) :
    s.isUnReachable = true ↔
      ∃ before err after, s.attempts = before ++ some err :: after ∧ isNoRoute err = true ∧
        none ∉ after := by
  have hrouted : s.Routed := by
    refine h.invariant Routed (fun s call s' hs _ hstep ↦ ?_) ?_
    · obtain rfl : (s.perform call).2 = s' := Option.some.inj hstep
      exact hs.perform call
    · exact iff_of_false (lt_irrefl 0) (by simp [NoRouteSince, fresh])
  rw [isUnReachable, decide_eq_true_iff]
  exact hrouted

/-- The server is reached and lost; on the way back its host is unreachable, and a second
address refuses. -/
def lostRoute : List (PortCall Lookup) :=
  [.openRemote 5 (some [⟨-1, none⟩]), .hangUp,
    .openRemote 6 (some [⟨-1, some EHOSTUNREACH⟩, ⟨7, some 111⟩])]

theorem isUnReachable_iff_lost :
    ∃ s, Transition.run step lostRoute fresh = some s ∧ s.isUnReachable = true ∧
      ∃ before err after, s.attempts = before ++ some err :: after ∧ isNoRoute err = true ∧
        none ∉ after := by
  obtain ⟨s, hrun, hlost⟩ := Transition.exists_run step lostRoute fresh
    (fun s ↦ s.isUnReachable = true) (by decide)
  exact ⟨s, hrun, hlost,
    (isUnReachable_iff (.of_run (Transition.meets_true lostRoute fresh) hrun)).mp hlost⟩

end SocketPort

end DeviceAgent
