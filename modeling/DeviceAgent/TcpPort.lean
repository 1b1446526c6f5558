import DeviceAgent.Acknowledgement

/-!
# The TCP port

What `recv`, `send` and `connect` do is an input; what `TCPPort` makes of it is
computed.  A peer that closes makes `Read` return zero and closes the port, so
the exception for an unconnected port can only come from the next call.
-/

namespace DeviceAgent

open ReadResult

structure TCPPort where
  socketID : ℤ
  bConnected : Bool
  deriving DecidableEq, Repr

/-- The outcome of `recv` for one byte. -/
inductive Recv
  | data (b : Byte)
  | again
  | closed
  | error (err : ℤ)
  deriving DecidableEq, Repr

def Recv.isData : Recv → Bool
  | .data _ => true
  | _ => false

theorem Recv.ne_data {r : Recv} (h : ¬ r.isData = true) (b : Byte) : r ≠ .data b := by
  rintro rfl
  exact h rfl

inductive SendResult
  | sent
  | error (err : ℤ)
  deriving DecidableEq, Repr

/-- The outcome of `getaddrinfo` and `connect`. -/
inductive ConnectResult
  | success (socket : ℤ)
  | unresolved
  | refused
  deriving DecidableEq, Repr

/-- `ChannelException()`. -/
def unConnected : ChannelException := ⟨0, true⟩

namespace TCPPort

def close (port : TCPPort) : TCPPort := if 0 < port.socketID then ⟨-1, false⟩ else port

def isOpen (port : TCPPort) : Bool := port.bConnected

def read (port : TCPPort) (outcome : Recv) : ReadResult × TCPPort :=
  if port.bConnected then
    match outcome with
    | .data b => (byte b, port)
    | .again => (zero, port)
    | .closed => (zero, port.close)
    | .error err => (fail ⟨err, false⟩, port)
  else (fail unConnected, port)

/-- The exception thrown by `Write`, if any. -/
def write (port : TCPPort) (outcome : SendResult) : Option ChannelException :=
  if port.bConnected then
    match outcome with
    | .sent => none
    | .error err => some ⟨err, false⟩
  else some unConnected

def connect (port : TCPPort) : ConnectResult → Bool × TCPPort
  | .success socket => (true, ⟨socket, true⟩)
  | .unresolved => (false, port)
  | .refused => (false, { port with socketID := -1 })

/-- `Open`; `socket` is what the call of `socket` returns. -/
def openRemote (port : TCPPort) (socket : ℤ) (outcome : ConnectResult) : Bool × TCPPort :=
  let port := { port.close with socketID := socket }
  if socket < 0 then (false, port) else port.connect outcome

theorem close_bConnected (port : TCPPort) :
    port.close.bConnected = false ↔ port.bConnected = false ∨ 0 < port.socketID := by
  unfold close
  split
  · rename_i hpos
    exact iff_of_true rfl (Or.inr hpos)
  · rename_i hneg
    exact ⟨Or.inl, fun h ↦ h.resolve_right hneg⟩

theorem openRemote_bConnected {port port' : TCPPort} {socket : ℤ} {outcome : ConnectResult}
    (h : port.openRemote socket outcome = (false, port')) :
    port'.bConnected = port.close.bConnected := by
  unfold openRemote at h
  dsimp only at h
  split at h
  · rw [← (Prod.mk.inj h).2]
  · cases outcome with
    | success socket => cases h
    | unresolved => rw [← (Prod.mk.inj h).2]
    | refused => rw [← (Prod.mk.inj h).2]

theorem openRemote_eq_true {port port' : TCPPort} {socket : ℤ} {outcome : ConnectResult}
    (h : port.openRemote socket outcome = (true, port')) :
    ∃ descriptor, outcome = .success descriptor ∧ port' = ⟨descriptor, true⟩ := by
  unfold openRemote at h
  dsimp only at h
  split at h
  · cases h
  · cases outcome with
    | success descriptor => exact ⟨descriptor, rfl, (Prod.mk.inj h).2.symm⟩
    | unresolved => cases h
    | refused => cases h

/-- Successive reads.  After the outcomes listed the line is silent. -/
def reads (port : TCPPort) : List Recv → List ReadResult
  | [] => [(port.read .again).1]
  | outcome :: rest => (port.read outcome).1 :: (port.read outcome).2.reads rest

/-- The port after the first `n` of these reads. -/
def afterReads (port : TCPPort) : ℕ → List Recv → TCPPort
  | 0, _ => port
  | _ + 1, [] => (port.read .again).2
  | n + 1, outcome :: rest => (port.read outcome).2.afterReads n rest

/-- `ack.ReceiveAckFrom(port)`, with the port as the call leaves it. -/
def receiveAck (port : TCPPort) (ack : Packet) (outcomes : List Recv) : Received × TCPPort :=
  let results := port.reads outcomes
  let received := ack.receiveAckFrom results
  (received, port.afterReads (results.length - received.rest.length) outcomes)

/-- `cmd.ReceiveFrameFrom(port)`, with the port as the call leaves it. -/
def receiveFrame (port : TCPPort) (cmd : Packet) (outcomes : List Recv) : Received × TCPPort :=
  let results := port.reads outcomes
  let received := cmd.receiveFrameFrom results
  (received, port.afterReads (results.length - received.rest.length) outcomes)

theorem reads_data {port : TCPPort} (hport : port.bConnected = true) (bs : List Byte)
    (rest : List Recv) :
    port.reads (bs.map Recv.data ++ rest) = bs.map byte ++ port.reads rest := by
  induction bs with
  | nil => rfl
  | cons b bs ih =>
      have hread : port.read (.data b) = (byte b, port) := by simp [read, hport]
      simp only [List.map_cons, List.cons_append, reads, hread, ih]

theorem reads_end {port : TCPPort} (hport : port.bConnected = true) {rest : List Recv}
    (hrest : ∀ b tail, rest ≠ .data b :: tail) :
    ∃ r tail, port.reads rest = r :: tail ∧ (∀ b, r ≠ byte b) ∧
      ∀ e, r = fail e → e.bUnConnected = false := by
  cases rest with
  | nil => exact ⟨zero, [], by simp [reads, read, hport], by simp, by simp⟩
  | cons outcome rest =>
      refine ⟨_, _, rfl, ?_, ?_⟩
      · intro b
        cases outcome with
        | data c => exact absurd rfl (hrest c rest)
        | again => simp [read, hport]
        | closed => simp [read, hport]
        | error err => simp [read, hport]
      · intro e he
        cases outcome with
        | data c => exact absurd rfl (hrest c rest)
        | again => simp [read, hport] at he
        | closed => simp [read, hport] at he
        | error err =>
            obtain rfl : (⟨err, false⟩ : ChannelException) = e := by
              simpa [read, hport] using he
            rfl

theorem exists_data_prefix (outcomes : List Recv) :
    ∃ (bs : List Byte) (rest : List Recv), outcomes = bs.map Recv.data ++ rest ∧
      ∀ b tail, rest ≠ .data b :: tail := by
  induction outcomes with
  | nil => exact ⟨[], [], rfl, by simp⟩
  | cons outcome outcomes ih =>
      cases outcome with
      | data b =>
          obtain ⟨bs, rest, rfl, hrest⟩ := ih
          exact ⟨b :: bs, rest, rfl, hrest⟩
      | again => exact ⟨[], .again :: outcomes, rfl, by simp⟩
      | closed => exact ⟨[], .closed :: outcomes, rfl, by simp⟩
      | error err => exact ⟨[], .error err :: outcomes, rfl, by simp⟩

theorem afterReads_data {port : TCPPort} (hport : port.bConnected = true) (bs : List Byte)
    (n : ℕ) (rest : List Recv) :
    port.afterReads (bs.length + n) (bs.map Recv.data ++ rest) = port.afterReads n rest := by
  induction bs with
  | nil => rw [List.length_nil, Nat.zero_add, List.map_nil, List.nil_append]
  | cons b bs ih =>
      have hread : port.read (.data b) = (byte b, port) := by simp [read, hport]
      have hlen : (b :: bs).length + n = bs.length + n + 1 := by
        rw [List.length_cons]
        omega
      rw [hlen, List.map_cons, List.cons_append, afterReads, hread]
      exact ih

theorem afterReads_one (port : TCPPort) (rest : List Recv) :
    port.afterReads 1 rest = (port.read (rest.headD .again)).2 := by
  cases rest <;> rfl

/-- On a connected port an acknowledgement read never throws `UnConnected`: a
peer that closes ends the call with a zero, before the next read. -/
theorem receiveAck_thrown {port : TCPPort} (hport : port.bConnected = true) (ack : Packet)
    (outcomes : List Recv) {e : ChannelException}
    (he : (port.receiveAck ack outcomes).1.thrown = some e) : e.bUnConnected = false := by
  obtain ⟨bs, rest, rfl, hrest⟩ := exists_data_prefix outcomes
  obtain ⟨r, tail, hreads, hr, hconn⟩ := reads_end hport hrest
  have hthrown : (port.receiveAck ack (bs.map Recv.data ++ rest)).1.thrown = Packet.endOf r := by
    simp only [receiveAck, reads_data hport, hreads, Packet.receiveAckFrom_bytes ack bs hr]
  rw [hthrown] at he
  cases r with
  | byte b => exact absurd rfl (hr b)
  | zero => cases he
  | fail e' =>
      obtain rfl : e' = e := Option.some.inj he
      exact hconn e' rfl

theorem write_eq_none {port : TCPPort} {written : SendResult} (h : port.write written = none) :
    port.bConnected = true ∧ written = .sent := by
  unfold write at h
  split at h
  · rename_i hport
    cases written with
    | sent => exact ⟨hport, rfl⟩
    | error err => cases h
  · cases h

theorem receiveAck_unconnected {port : TCPPort} (hport : port.bConnected = false) (ack : Packet)
    (outcomes : List Recv) : (port.receiveAck ack outcomes).1.thrown = some unConnected := by
  cases outcomes <;> simp [receiveAck, reads, read, hport, Packet.receiveAckFrom, Packet.scanAck]

theorem receiveAck_answers {port : TCPPort} (hport : port.bConnected = true) (ack : Packet)
    (answers : List Answer) {ending : Recv} (hending : ∀ b, ending ≠ .data b) :
    (port.receiveAck ack ((answers.flatMap Answer.bytes).map Recv.data ++ [ending])).1.packet =
      ack.clear.append (answers.flatMap Answer.bytes) := by
  have hrest : ∀ b tail, [ending] ≠ Recv.data b :: tail := by
    intro b tail h
    exact hending b (List.cons.inj h).1
  obtain ⟨r, tail, hreads, hr, -⟩ := reads_end hport hrest
  simp only [receiveAck, reads_data hport, hreads, Packet.receiveAckFrom_bytes ack _ hr,
    Packet.dropWhile_answers]

end TCPPort

end DeviceAgent
