import DeviceAgent.CurrentData
import DeviceAgent.Foundations.Handles
import DeviceAgent.Foundations.Transition

/-!
# The serial port

`SerialPort` opens its device by itself when it is used and not open, and closes it when the
system reports an error.  Nothing of that is visible to the caller, who gets a byte or
nothing: the results are those of a line that is merely silent at times, which is how the
rest of the program is modelled.
-/

namespace DeviceAgent

open ReadResult Handles

/-- The outcome of one `read` of the device. -/
inductive RawRead
  | byte (b : Byte)
  | empty
  | error
  deriving DecidableEq, Repr

def RawRead.byte? : RawRead → Option Byte
  | .byte b => some b
  | .empty => none
  | .error => none

structure SerialPort where
  handle : ℤ
  ledger : Ledger ℤ
  deriving DecidableEq, Repr

/-- A call of `Read`, with what it leaves on the line. -/
structure SerialRead where
  result : ReadResult
  rest : List RawRead
  port : SerialPort
  deriving DecidableEq, Repr

namespace SerialPort

/-- The constructor. -/
def fresh : SerialPort := ⟨-1, .empty⟩

def close (s : SerialPort) : SerialPort :=
  if 0 < s.handle then ⟨-1, s.ledger.release s.handle⟩ else s

/-- `Open`; `fd` is what `open` returns. -/
def openDev (fd : ℤ) (s : SerialPort) : SerialPort :=
  ⟨fd, s.close.ledger.record fd⟩

/-- As the source has it, true of a port that is not open. -/
def isOpen (s : SerialPort) : Bool := s.handle == -1

/-- Both `Read` and `Write` open a port that is not open. -/
def ensureOpen (fd : ℤ) (s : SerialPort) : SerialPort :=
  if s.handle = -1 then s.openDev fd else s

/-- The loop of `Read`, from a value of `try_again` that is not zero. -/
def readLoop : ℕ → List RawRead → SerialPort → SerialRead
  | 0, raws, s => ⟨zero, raws, s⟩
  | tryAgain + 1, raws, s =>
      -- A closed descriptor fails without touching the line.
      if s.handle < 0 then ⟨zero, raws, s.close⟩
      else
        match raws with
        | .byte b :: rest => ⟨byte b, rest, s⟩
        | .error :: rest => ⟨zero, rest, s.close⟩
        | .empty :: rest => readLoop tryAgain rest s
        | [] => readLoop tryAgain [] s

/-- `Read` of one byte; `fd` is what `open` returns if it is called. -/
def read (fd : ℤ) (raws : List RawRead) (s : SerialPort) : SerialRead :=
  readLoop 2 raws (s.ensureOpen fd)

/-- `Write`, with what reaches the line; `written` is the result of `write`, nothing for an
error. -/
def write (fd : ℤ) (written : Option ℕ) (bytes : List Byte) (s : SerialPort) :
    ℕ × List Byte × SerialPort :=
  if bytes = [] then (0, [], s)
  else
    let s := s.ensureOpen fd
    if s.handle < 0 then (0, [], s.close)
    else
      match written with
      | some n => (n, bytes.take n, s)
      | none => (0, [], s.close)

/-- Successive calls of `Read`, one for each result of `open`. -/
def reads : List ℤ → List RawRead → SerialPort → List ReadResult × List RawRead × SerialPort
  | [], raws, s => ([], raws, s)
  | fd :: fds, raws, s =>
      let r := s.read fd raws
      let later := reads fds r.rest r.port
      (r.result :: later.1, later.2)

/-! ## What the caller sees -/

/-- The results are those of a line whose bytes are the ones taken off the device, with at
most so many outcomes. -/
structure Seen (limit : ℕ) (raws : List RawRead) (line : List (Option Byte))
    (results : List ReadResult) (rest : List RawRead) : Prop where
  results : results = serialReads line
  used : ∃ used, raws = used ++ rest ∧ used.length ≤ limit ∧
    used.filterMap RawRead.byte? = line.reduceOption

section Seen

variable {limit limit' : ℕ} {raw : RawRead} {raws middle rest : List RawRead}
  {line line' : List (Option Byte)} {results results' : List ReadResult}

theorem seen_nothing : Seen limit raws [none] [zero] raws := ⟨rfl, [], rfl, Nat.zero_le _, rfl⟩

/-- An outcome without a byte in front. -/
theorem Seen.behind (h : Seen limit raws line results rest) (hraw : raw.byte? = none) :
    Seen (limit + 1) (raw :: raws) line results rest := by
  obtain ⟨hresults, used, rfl, hlength, hbytes⟩ := h
  refine ⟨hresults, raw :: used, rfl, ?_, ?_⟩
  · rw [List.length_cons]
    omega
  · rwa [List.filterMap_cons_none hraw]

theorem Seen.mono (h : Seen limit raws line results rest) (hle : limit ≤ limit') :
    Seen limit' raws line results rest := by
  obtain ⟨hresults, used, hraws, hlength, hbytes⟩ := h
  exact ⟨hresults, used, hraws, hlength.trans hle, hbytes⟩

theorem Seen.append (h : Seen limit raws line results middle)
    (h' : Seen limit' middle line' results' rest) :
    Seen (limit + limit') raws (line ++ line') (results ++ results') rest := by
  obtain ⟨rfl, used, rfl, hlength, hbytes⟩ := h
  obtain ⟨rfl, used', rfl, hlength', hbytes'⟩ := h'
  refine ⟨List.map_append.symm, used ++ used', by rw [List.append_assoc], ?_, ?_⟩
  · rw [List.length_append]
    omega
  · rw [List.filterMap_append, hbytes, hbytes', List.reduceOption_append]

end Seen

theorem readLoop_seen (tryAgain : ℕ) (raws : List RawRead) (s : SerialPort) :
    ∃ answer, Seen tryAgain raws [answer] [(readLoop tryAgain raws s).result]
      (readLoop tryAgain raws s).rest := by
  fun_induction readLoop tryAgain raws s with
  | case1 raws s => exact ⟨none, seen_nothing⟩
  | case2 raws s tryAgain hclosed => exact ⟨none, seen_nothing⟩
  | case3 s tryAgain hopen b rest => exact ⟨some b, rfl, [.byte b], rfl, by simp, rfl⟩
  | case4 s tryAgain hopen rest => exact ⟨none, seen_nothing.behind rfl⟩
  | case5 s tryAgain hopen rest ih =>
      obtain ⟨answer, hseen⟩ := ih
      exact ⟨answer, hseen.behind rfl⟩
  | case6 s tryAgain hopen ih =>
      obtain ⟨answer, hseen⟩ := ih
      exact ⟨answer, hseen.mono (Nat.le_succ _)⟩

theorem reads_seen (fds : List ℤ) (raws : List RawRead) (s : SerialPort) :
    ∃ line, line.length = fds.length ∧
      Seen (2 * fds.length) raws line (s.reads fds raws).1 (s.reads fds raws).2.1 := by
  induction fds generalizing raws s with
  | nil => exact ⟨[], rfl, rfl, [], rfl, le_rfl, rfl⟩
  | cons fd fds ih =>
      obtain ⟨answer, hnow⟩ := readLoop_seen 2 raws (s.ensureOpen fd)
      obtain ⟨line, hlength, hlater⟩ := ih (s.read fd raws).rest (s.read fd raws).port
      refine ⟨answer :: line, by rw [List.length_cons, List.length_cons, hlength], ?_⟩
      exact (hnow.append hlater).mono (by rw [List.length_cons]; omega)

/-- Whatever becomes of the device, the results of successive calls of `Read` are those of a
line that gives a byte or stays silent.  The bytes are the ones read from the device, each
once and in their order, and no call makes more than two attempts. -/
theorem reads_serialReads (fds : List ℤ) (raws : List RawRead) (s : SerialPort) :
    ∃ line used, (s.reads fds raws).1 = serialReads line ∧ line.length = fds.length ∧
      raws = used ++ (s.reads fds raws).2.1 ∧ used.length ≤ 2 * fds.length ∧
      used.filterMap RawRead.byte? = line.reduceOption := by
  obtain ⟨line, hlength, hresults, used, hused⟩ := s.reads_seen fds raws
  exact ⟨line, used, hresults, hlength, hused⟩

/-! ## Every descriptor is closed once or held -/

/-- The ways the program uses a serial port, with what the system does. -/
inductive Call
  | openDev (fd : ℤ)
  | close
  | read (fd : ℤ) (raws : List RawRead)
  | write (fd : ℤ) (written : Option ℕ) (bytes : List Byte)
  deriving DecidableEq, Repr

def Call.Proper : Call → Prop
  | .openDev fd => IsDescriptor fd
  | .close => True
  | .read fd _ => IsDescriptor fd
  | .write fd _ _ => IsDescriptor fd

instance : DecidablePred Call.Proper
  | .openDev fd => inferInstanceAs (Decidable (IsDescriptor fd))
  | .close => inferInstanceAs (Decidable True)
  | .read fd _ => inferInstanceAs (Decidable (IsDescriptor fd))
  | .write fd _ _ => inferInstanceAs (Decidable (IsDescriptor fd))

def step (s : SerialPort) : Call → Option SerialPort
  | .openDev fd => some (s.openDev fd)
  | .close => some s.close
  | .read fd raws => some (s.read fd raws).port
  | .write fd written bytes => some (s.write fd written bytes).2.2

def Sound (s : SerialPort) : Prop := s.ledger.Accounts s.handle

variable {s : SerialPort}

theorem sound_fresh : fresh.Sound := Ledger.accounts_empty

theorem Sound.close (h : s.Sound) : s.close.Sound ∧ s.close.handle = -1 := by
  unfold SerialPort.close
  split_ifs with hpos
  · exact ⟨h.release hpos, rfl⟩
  · exact ⟨h, h.none hpos⟩

theorem Sound.openDev (h : s.Sound) {fd : ℤ} (hfd : IsDescriptor fd) : (s.openDev fd).Sound := by
  obtain ⟨hclosed, hnone⟩ := h.close
  rw [Sound, hnone] at hclosed
  exact hclosed.record hfd

theorem Sound.ensureOpen (h : s.Sound) {fd : ℤ} (hfd : IsDescriptor fd) :
    (s.ensureOpen fd).Sound := by
  unfold SerialPort.ensureOpen
  split_ifs
  · exact h.openDev hfd
  · exact h

theorem Sound.readLoop (h : s.Sound) (tryAgain : ℕ) (raws : List RawRead) :
    (s.readLoop tryAgain raws).port.Sound := by
  fun_induction SerialPort.readLoop tryAgain raws s with
  | case1 => exact h
  | case2 => exact h.close.1
  | case3 => exact h
  | case4 => exact h.close.1
  | case5 s tryAgain hopen rest ih => exact ih h
  | case6 s tryAgain hopen ih => exact ih h

theorem Sound.write (h : s.Sound) {fd : ℤ} (hfd : IsDescriptor fd) (written : Option ℕ)
    (bytes : List Byte) : (s.write fd written bytes).2.2.Sound := by
  have hopen := h.ensureOpen hfd
  unfold SerialPort.write
  dsimp only
  split_ifs
  · exact h
  · exact hopen.close.1
  · cases written with
    | some n => exact hopen
    | none => exact hopen.close.1

/-- However a serial port is used, every descriptor it was given has been closed exactly
once, except the one it holds; and `IsOpen` is true exactly when it holds none. -/
theorem handles_accounted
    (h : Transition.Reaches step (fun _ call ↦ call.Proper) fresh s) :
    s.ledger.Balanced (held s.handle) ∧ (s.isOpen = true ↔ held s.handle = none) := by
  have hsound : s.Sound := by
    refine h.invariant Sound (fun s call s' hs hcall hstep ↦ ?_) sound_fresh
    cases call with
    | openDev fd =>
        obtain rfl : s.openDev fd = s' := Option.some.inj hstep
        exact hs.openDev hcall
    | close =>
        obtain rfl : s.close = s' := Option.some.inj hstep
        exact hs.close.1
    | read fd raws =>
        obtain rfl : (s.read fd raws).port = s' := Option.some.inj hstep
        exact (hs.ensureOpen hcall).readLoop 2 raws
    | write fd written bytes =>
        obtain rfl : (s.write fd written bytes).2.2 = s' := Option.some.inj hstep
        exact hs.write hcall written bytes
  refine ⟨hsound.balanced, ?_⟩
  rw [isOpen, beq_iff_eq]
  rcases hsound.descriptor with hnone | hpos
  · simp [hnone, held]
  · rw [held_pos hpos]
    exact iff_of_false (by omega) (by simp)

/-- The device is opened for a command, fails while the answer is read, cannot be opened at
first and then answers. -/
def unplugged : List Call :=
  [.write 3 (some 1) [0x01], .read 4 [.empty, .error], .read (-1) [], .read 4 [.byte 0x06]]

theorem handles_accounted_unplugged :
    ∃ s, Transition.run step unplugged fresh = some s ∧ s.ledger = ⟨[3, 4], [3]⟩ ∧
      s.ledger.Balanced (held s.handle) ∧ (s.isOpen = true ↔ held s.handle = none) := by
  obtain ⟨s, hrun, hledger⟩ := Transition.exists_run step unplugged fresh
    (fun s ↦ s.ledger = ⟨[3, 4], [3]⟩) (by decide)
  exact ⟨s, hrun, hledger, handles_accounted (.of_run (by decide) hrun)⟩

end SerialPort

end DeviceAgent
