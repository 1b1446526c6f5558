import DeviceAgent.ConfigFile
import DeviceAgent.TcpPort
import DeviceAgent.Foundations.Procedure

/-!
# Waiting for a modem response

`WaitATResponse` looks at its cache only after a read, first for the word it waits for
and then for `ERROR:`.  So its verdict is a matter of where the reads end: if the error
is complete before the word, a read that ends between the two gives zero, and a read
that reaches over both gives one.
-/

namespace DeviceAgent

open Procedure

/-! ## Reading into a buffer -/

/-- What `recv` can put into the buffer of 256 bytes. -/
structure Piece where
  bytes : List Byte
  nonempty : bytes ≠ []
  fits : bytes.length ≤ 256

/-- The outcome of `recv` for this buffer. -/
inductive Chunk
  | data (piece : Piece)
  | again
  | closed
  | error (err : ℤ)

namespace Chunk

def bytes : Chunk → List Byte
  | .data piece => piece.bytes
  | _ => []

/-- The connection stands. -/
def delivers : Chunk → Bool
  | .data _ => true
  | .again => true
  | _ => false

end Chunk

/-- The AT port with the cache of its answers and with what it is going to meet: the
outcomes of `recv` and `send`, and the clock readings of each wait.  Behind the outcomes
listed the line is silent, and behind the readings listed the time is over. -/
structure AtLine where
  strCache : List Byte
  UT_ATPort : TCPPort
  recvs : List Chunk
  sends : List SendResult
  clocks : List (List ℤ)
  written : List (List Byte)

abbrev AT := EStateM ChannelException AtLine

namespace AtLine

/-- `UT_ATPort.Read(buf, 256)`. -/
def read : AT (List Byte) := fun line ↦
  if line.UT_ATPort.bConnected then
    let later := { line with recvs := line.recvs.tail }
    match line.recvs.headD .again with
    | .data piece => .ok piece.bytes later
    | .again => .ok [] later
    | .closed => .ok [] { later with UT_ATPort := line.UT_ATPort.close }
    | .error err => .error ⟨err, false⟩ later
  else .error unConnected line

def append (buf : List Byte) (line : AtLine) : AtLine :=
  { line with strCache := line.strCache ++ buf }

def clear (line : AtLine) : AtLine := { line with strCache := [] }

end AtLine

/-- `ERROR:`. -/
def errorTag : List Byte := ascii ['E', 'R', 'R', 'O', 'R', ':']

/-- What the cache says about the wait for `szWait`, if anything. -/
def response (szWait strCache : List Byte) : Option Bool :=
  if szWait <:+: strCache then some true else if errorTag <:+: strCache then some false else none

theorem response_eq_some_true {szWait strCache : List Byte} :
    response szWait strCache = some true ↔ szWait <:+: strCache := by
  unfold response
  split_ifs with hword herror <;> simp [hword]

theorem response_eq_none {szWait strCache : List Byte} :
    response szWait strCache = none ↔ ¬ szWait <:+: strCache ∧ ¬ errorTag <:+: strCache := by
  unfold response
  split_ifs with hword herror
  · simp [hword]
  · simp [herror]
  · simp [hword, herror]

theorem response_getD (szWait strCache : List Byte) :
    (response szWait strCache).getD false = decide (szWait <:+: strCache) := by
  unfold response
  split_ifs with hword herror
  · simp [hword]
  · simp [hword]
  · simp [hword]

/-- One pass up to the question for the time. -/
def waitPass (szWait : List Byte) : AT (Option Bool) := do
  let buf ← AtLine.read
  modify (AtLine.append buf)
  return response szWait (← get).strCache

/-- The passes; each reading is `diff.tv_sec` of its pass. -/
def waitLoop (szWait : List Byte) (timeout : ℤ) : List ℤ → AT Bool
  | [] => do return (← waitPass szWait).getD false
  | diff :: readings => do
      match ← waitPass szWait with
      | some result => return result
      | none => if timeout < diff then return false else waitLoop szWait timeout readings

def waitATResponse (szWait : List Byte) (timeout : ℤ) (bClear : Bool) (readings : List ℤ) :
    AT Bool := do
  if bClear then modify AtLine.clear
  waitLoop szWait timeout readings

/-! ## What the reads show -/

namespace AtLine

/-- The port is connected and stays so. -/
structure Open (line : AtLine) : Prop where
  connected : line.UT_ATPort.bConnected = true
  delivers : ∀ chunk ∈ line.recvs, chunk.delivers = true

/-- The cache after `k` more reads. -/
def seen (line : AtLine) (k : ℕ) : List Byte :=
  line.strCache ++ (line.recvs.take k).flatMap Chunk.bytes

/-- The line after `k` more reads. -/
def heard (line : AtLine) (k : ℕ) : AtLine :=
  { line with strCache := line.seen k, recvs := line.recvs.drop k }

variable {line : AtLine}

theorem seen_heard (line : AtLine) (j k : ℕ) : (line.heard j).seen k = line.seen (j + k) := by
  simp only [seen, heard, List.append_assoc, ← List.flatMap_append, ← List.take_add]

theorem heard_heard (line : AtLine) (j k : ℕ) :
    (line.heard j).heard k = line.heard (j + k) := by
  have hseen := line.seen_heard j k
  simp only [heard, List.drop_drop] at hseen ⊢
  rw [hseen]

theorem Open.heard (hopen : line.Open) (k : ℕ) : (line.heard k).Open :=
  ⟨hopen.connected, fun chunk hchunk ↦ hopen.delivers chunk (List.mem_of_mem_drop hchunk)⟩

theorem seen_isPrefix (line : AtLine) {j k : ℕ} (h : j ≤ k) : line.seen j <+: line.seen k := by
  obtain ⟨i, rfl⟩ := Nat.exists_eq_add_of_le h
  rw [← seen_heard]
  exact List.prefix_append _ _

end AtLine

open AtLine

variable {line : AtLine}

theorem waitPass_open (szWait : List Byte) (hopen : line.Open) :
    waitPass szWait line = .ok (response szWait (line.seen 1)) (line.heard 1) := by
  have hread : AtLine.read line =
      .ok ((line.recvs.headD .again).bytes) { line with recvs := line.recvs.tail } := by
    have hhead : (line.recvs.headD .again).delivers = true := by
      cases hrecvs : line.recvs with
      | nil => rfl
      | cons chunk rest => exact hopen.delivers chunk (by simp [hrecvs])
    unfold AtLine.read
    rw [if_pos hopen.connected]
    cases hchunk : line.recvs.headD .again with
    | data piece => rfl
    | again => rfl
    | closed => rw [hchunk] at hhead; cases hhead
    | error err => rw [hchunk] at hhead; cases hhead
  have hseen : line.seen 1 = line.strCache ++ (line.recvs.headD .again).bytes := by
    cases hrecvs : line.recvs with
    | nil => simp [seen, hrecvs, Chunk.bytes]
    | cons chunk rest => simp [seen, hrecvs]
  unfold waitPass
  rw [bind_ok hread, AtLine.heard, hseen, List.drop_one]
  rfl

/-- The readings allow for `reads` reads. -/
def InTime (timeout : ℤ) (readings : List ℤ) (reads : ℕ) : Prop :=
  reads ≤ readings.length + 1 ∧ ∀ diff ∈ readings, diff ≤ timeout

theorem InTime.mono {timeout : ℤ} {readings : List ℤ} {m n : ℕ} (h : InTime timeout readings n)
    (hle : m ≤ n) : InTime timeout readings m := ⟨hle.trans h.1, h.2⟩

/-- While the time is not over, the loop ends with the first read that shows something. -/
theorem waitLoop_open (szWait : List Byte) {timeout : ℤ} (hopen : line.Open) {readings : List ℤ}
    (htime : ∀ diff ∈ readings, diff ≤ timeout) :
    ∃ k, 1 ≤ k ∧ (∀ j, 1 ≤ j → j < k → response szWait (line.seen j) = none) ∧
      (response szWait (line.seen k) = none → k = readings.length + 1) ∧
      waitLoop szWait timeout readings line =
        .ok ((response szWait (line.seen k)).getD false) (line.heard k) := by
  induction readings generalizing line with
  | nil =>
      refine ⟨1, le_rfl, fun j hj hlt ↦ by omega, fun _ ↦ rfl, ?_⟩
      rw [waitLoop, bind_ok (waitPass_open szWait hopen)]
      rfl
  | cons diff readings ih =>
      have hpass := waitPass_open szWait hopen
      cases hfirst : response szWait (line.seen 1) with
      | some result =>
          refine ⟨1, le_rfl, fun j hj hlt ↦ by omega, fun hnone ↦ ?_, ?_⟩
          · rw [hfirst] at hnone
            cases hnone
          · rw [waitLoop, bind_ok hpass, hfirst]
            rfl
      | none =>
          obtain ⟨k, hk, hbefore, hlast, hloop⟩ := ih (hopen.heard 1) fun d hd ↦
            htime d (List.mem_cons_of_mem diff hd)
          simp only [seen_heard, heard_heard] at hbefore hlast hloop
          refine ⟨1 + k, by omega, fun j hj hlt ↦ ?_, fun hnone ↦ ?_, ?_⟩
          · rcases Nat.eq_or_lt_of_le hj with rfl | hj
            · exact hfirst
            · obtain ⟨i, rfl⟩ := Nat.exists_eq_add_of_le hj.le
              exact hbefore i (by omega) (by omega)
          · rw [hlast hnone, List.length_cons]
            omega
          · have hdiff : ¬ timeout < diff := not_lt.mpr (htime diff List.mem_cons_self)
            rw [waitLoop, bind_ok hpass, hfirst, ← hloop]
            exact congrFun (if_neg hdiff) _

/-- A wait in time: it ends with the first read that shows something, or has read all. -/
theorem waitATResponse_open (szWait : List Byte) {timeout : ℤ} (hopen : line.Open)
    {readings : List ℤ} (htime : InTime timeout readings line.recvs.length) :
    ∃ k, 1 ≤ k ∧ (∀ j, 1 ≤ j → j < k → response szWait (line.seen j) = none) ∧
      (response szWait (line.seen k) = none → line.recvs.length ≤ k) ∧
      waitATResponse szWait timeout false readings line =
        .ok ((response szWait (line.seen k)).getD false) (line.heard k) := by
  obtain ⟨k, hk, hbefore, hlast, hloop⟩ := waitLoop_open szWait hopen htime.2
  exact ⟨k, hk, hbefore, fun hnone ↦ (hlast hnone).symm ▸ htime.1, hloop⟩

/-! ## One stream, cut in different ways -/

/-- A stream in pieces, all of them read before the time is over. -/
structure Arrival (timeout : ℤ) (stream : List Byte) where
  pieces : List Piece
  readings : List ℤ
  joined : pieces.flatMap Piece.bytes = stream
  inTime : InTime timeout readings pieces.length

namespace Arrival

variable {timeout : ℤ} {stream szWait : List Byte} {e w : ℕ}

/-- What `WaitATResponse` returns, with `bClear` set, when the stream arrives like this. -/
def result (a : Arrival timeout stream) (szWait : List Byte) (line : AtLine) :
    Except ChannelException Bool :=
  outcome (waitATResponse szWait timeout true a.readings
    { line with recvs := a.pieces.map Chunk.data })

/-- The beginning of the stream that `k` reads bring. -/
def shown (a : Arrival timeout stream) (k : ℕ) : List Byte :=
  (a.pieces.take k).flatMap Piece.bytes

theorem shown_eq_take (a : Arrival timeout stream) (k : ℕ) :
    a.shown k = stream.take (a.shown k).length := by
  have hbegin : a.shown k <+: a.pieces.flatMap Piece.bytes :=
    (List.take_prefix k a.pieces).flatMap Piece.bytes
  exact List.prefix_iff_eq_take.mp (hbegin.trans (by rw [a.joined]))

theorem isInfix_shown_iff (a : Arrival timeout stream) {word : List Byte}
    (hw : IsLeast (Text.completions word stream) w) (k : ℕ) :
    word <:+: a.shown k ↔ w ≤ (a.shown k).length := by
  rw [a.shown_eq_take k, Text.mem_completions_iff hw, ← a.shown_eq_take k]

theorem length_shown_succ_le (a : Arrival timeout stream) (k : ℕ) :
    (a.shown (k + 1)).length ≤ (a.shown k).length + 256 := by
  simp only [shown]
  rw [List.take_add_one, List.flatMap_append, List.length_append]
  cases a.pieces[k]? with
  | none => simp
  | some piece => simpa using piece.fits

theorem result_spec (a : Arrival timeout stream) (szWait : List Byte) {line : AtLine}
    (hopen : line.UT_ATPort.bConnected = true) :
    ∃ k, 1 ≤ k ∧ (∀ j, 1 ≤ j → j < k → response szWait (a.shown j) = none) ∧
      (response szWait (a.shown k) = none → a.shown k = stream) ∧
      a.result szWait line = .ok ((response szWait (a.shown k)).getD false) := by
  have hline : AtLine.Open { line with strCache := [], recvs := a.pieces.map Chunk.data } := by
    refine ⟨hopen, fun chunk hchunk ↦ ?_⟩
    obtain ⟨piece, -, rfl⟩ := List.mem_map.mp hchunk
    rfl
  have hseen : ∀ k, AtLine.seen { line with strCache := [], recvs := a.pieces.map Chunk.data } k =
      a.shown k := by
    intro k
    simp only [seen, shown, List.nil_append, ← List.map_take, List.flatMap_map]
    rfl
  obtain ⟨k, hk, hbefore, hlast, hwait⟩ := waitATResponse_open szWait hline
    (by simpa using a.inTime)
  simp only [hseen, List.length_map] at hbefore hlast hwait
  refine ⟨k, hk, hbefore, fun hnone ↦ ?_, congrArg outcome hwait⟩
  rw [shown, List.take_of_length_le (hlast hnone), a.joined]

/-- If the error is not complete before the word, the word is found. -/
theorem result_of_le (a : Arrival timeout stream) {line : AtLine}
    (hopen : line.UT_ATPort.bConnected = true) (hw : IsLeast (Text.completions szWait stream) w)
    (hgap : ∀ k, errorTag <:+: a.shown k → w ≤ (a.shown k).length) :
    a.result szWait line = .ok true := by
  obtain ⟨k, -, -, hall, hresult⟩ := a.result_spec szWait hopen
  have hfound : szWait <:+: a.shown k := by
    by_contra hword
    have herror : errorTag <:+: a.shown k := by
      by_contra herror
      rw [hall (response_eq_none.mpr ⟨hword, herror⟩)] at hword
      exact hword (hw.1.trans (List.take_prefix w stream).isInfix)
    exact hword ((a.isInfix_shown_iff hw k).mpr (hgap k herror))
  rw [hresult, response_eq_some_true.mpr hfound]
  rfl

/-- If some read ends behind the error and before the word, the error is found. -/
theorem result_of_gap (a : Arrival timeout stream) {line : AtLine}
    (hopen : line.UT_ATPort.bConnected = true)
    (hgap : ∀ k, szWait <:+: a.shown k → ∃ j, 1 ≤ j ∧ j < k ∧ errorTag <:+: a.shown j) :
    a.result szWait line = .ok false := by
  obtain ⟨k, -, hbefore, -, hresult⟩ := a.result_spec szWait hopen
  have hmissed : response szWait (a.shown k) ≠ some true := by
    intro hfound
    obtain ⟨j, hj, hlt, herror⟩ := hgap k (response_eq_some_true.mp hfound)
    exact (response_eq_none.mp (hbefore j hj hlt)).2 herror
  rw [hresult]
  rcases hshown : response szWait (a.shown k) with _ | _ | _
  · rfl
  · rfl
  · exact absurd hshown hmissed

/-- A read cannot reach over 256 bytes. -/
theorem result_of_far (a : Arrival timeout stream) {line : AtLine}
    (hopen : line.UT_ATPort.bConnected = true) (he : IsLeast (Text.completions errorTag stream) e)
    (hw : IsLeast (Text.completions szWait stream) w) (hfar : e + 256 ≤ w) :
    a.result szWait line = .ok false := by
  refine a.result_of_gap hopen fun k hword ↦ ?_
  have hk := (a.isInfix_shown_iff hw k).mp hword
  cases k with
  | zero =>
      have hnothing : (a.shown 0).length = 0 := rfl
      omega
  | succ j =>
      have hstep := a.length_shown_succ_le j
      have hj : e ≤ (a.shown j).length := by omega
      refine ⟨j, Nat.one_le_iff_ne_zero.mpr ?_, Nat.lt_succ_self j,
        (a.isInfix_shown_iff he j).mpr hj⟩
      rintro rfl
      have hempty : errorTag <:+: [] := (a.isInfix_shown_iff he 0).mpr hj
      exact absurd hempty (by decide)

/-! ## Two ways of cutting -/

/-- The pieces given, each read at once. -/
def ofPieces (timeout : ℤ) {pieces : List Piece} (hjoined : pieces.flatMap Piece.bytes = stream) :
    Arrival timeout stream :=
  ⟨pieces, List.replicate pieces.length timeout, hjoined, by
    rw [InTime, List.length_replicate]
    exact ⟨Nat.le_succ _, fun diff hdiff ↦ (List.eq_of_mem_replicate hdiff).le⟩⟩

/-- A piece for every byte. -/
def singles (bytes : List Byte) : List Piece :=
  bytes.map fun b ↦ ⟨[b], List.cons_ne_nil b [], by rw [List.length_singleton]; decide⟩

theorem flatMap_singles (bytes : List Byte) : (singles bytes).flatMap Piece.bytes = bytes := by
  rw [singles, List.flatMap_map]
  exact List.flatMap_singleton' bytes

/-- With a read for every byte, one of them ends with the error. -/
theorem result_singles (timeout : ℤ) {line : AtLine} (hopen : line.UT_ATPort.bConnected = true)
    (he : IsLeast (Text.completions errorTag stream) e)
    (hw : IsLeast (Text.completions szWait stream) w) (hlt : e < w) :
    (ofPieces timeout (flatMap_singles stream)).result szWait line = .ok false := by
  have hshown : ∀ k, (ofPieces timeout (flatMap_singles stream)).shown k = stream.take k := by
    intro k
    change ((singles stream).take k).flatMap Piece.bytes = stream.take k
    rw [singles, ← List.map_take]
    exact flatMap_singles (stream.take k)
  refine result_of_gap _ hopen fun k hword ↦ ⟨e, ?_, ?_, ?_⟩
  · rw [Nat.one_le_iff_ne_zero]
    rintro rfl
    have hempty : errorTag <:+: [] := he.1
    exact absurd hempty (by decide)
  · rw [hshown, Text.mem_completions_iff hw] at hword
    omega
  · rw [hshown]
    exact he.1

/-- With fewer than 256 bytes between them, one read can reach over the error and the
word. -/
theorem exists_result_near (timeout : ℤ) {line : AtLine}
    (hopen : line.UT_ATPort.bConnected = true) (he : IsLeast (Text.completions errorTag stream) e)
    (hw : IsLeast (Text.completions szWait stream) w) (hlt : e < w) (hnear : w < e + 256) :
    ∃ a : Arrival timeout stream, a.result szWait line = .ok true := by
  have hwhole := Text.le_length_of_isLeast hw
  have hpos : e ≠ 0 := by
    rintro rfl
    have hempty : errorTag <:+: [] := he.1
    exact absurd hempty (by decide)
  -- byte by byte up to the error's last byte, then at once up to the word's
  obtain ⟨long, hlong⟩ : ∃ piece : Piece, piece.bytes = (stream.take w).drop (e - 1) := by
    have hlength : ((stream.take w).drop (e - 1)).length = w - (e - 1) := by
      rw [List.length_drop, List.length_take, Nat.min_eq_left hwhole]
    exact ⟨⟨_, List.ne_nil_of_length_pos (by omega), by omega⟩, rfl⟩
  have hhead : (singles ((stream.take w).take (e - 1)) ++ [long]).flatMap Piece.bytes =
      stream.take w := by
    rw [List.flatMap_append, flatMap_singles, List.flatMap_singleton, hlong,
      List.take_append_drop]
  have hjoined : (singles ((stream.take w).take (e - 1)) ++ [long] ++
      singles (stream.drop w)).flatMap Piece.bytes = stream := by
    rw [List.flatMap_append, hhead, flatMap_singles, List.take_append_drop]
  refine ⟨ofPieces timeout hjoined, result_of_le _ hopen hw fun k herror ↦ ?_⟩
  rw [isInfix_shown_iff _ he] at herror
  have hfirst : ((singles ((stream.take w).take (e - 1))).flatMap Piece.bytes).length ≤ e - 1 := by
    rw [flatMap_singles]
    exact List.length_take_le _ _
  generalize singles ((stream.take w).take (e - 1)) = first at hhead hjoined hfirst
  rcases Nat.lt_or_ge first.length k with hk | hk
  · have hbegin : first ++ [long] <+: (first ++ [long] ++ singles (stream.drop w)).take k := by
      refine List.prefix_take_iff.mpr ⟨List.prefix_append _ _, ?_⟩
      rw [List.length_append]
      exact hk
    have hshown := (hbegin.flatMap Piece.bytes).length_le
    rw [hhead, List.length_take, Nat.min_eq_left hwhole] at hshown
    exact hshown
  · have hbegin : (first ++ [long] ++ singles (stream.drop w)).take k <+: first := by
      rw [List.append_assoc, List.take_append_of_le_length hk]
      exact List.take_prefix k first
    have hshown : ((ofPieces timeout hjoined).shown k).length ≤ _ :=
      (hbegin.flatMap Piece.bytes).length_le
    omega

end Arrival

/-- The verdict does not depend on how the stream is cut exactly if the error is not
complete before the word, or at least 256 bytes before it. -/
theorem waitATResponse_cut_iff (line : AtLine) (szWait stream : List Byte) (timeout : ℤ)
    (hopen : line.UT_ATPort.bConnected = true) :
    (∀ a b : Arrival timeout stream, a.result szWait line = b.result szWait line) ↔
      ∀ e w, IsLeast (Text.completions errorTag stream) e →
        IsLeast (Text.completions szWait stream) w → e < w → e + 256 ≤ w := by
  constructor
  · intro h e w he hw hlt
    by_contra hnear
    obtain ⟨a, ha⟩ := Arrival.exists_result_near timeout hopen he hw hlt (not_le.mp hnear)
    have hsame := h a (Arrival.ofPieces timeout (Arrival.flatMap_singles stream))
    rw [ha, Arrival.result_singles timeout hopen he hw hlt] at hsame
    cases hsame
  · intro h
    obtain ⟨verdict, hverdict⟩ : ∃ verdict, ∀ a : Arrival timeout stream,
        a.result szWait line = .ok verdict := by
      by_cases hword : szWait <:+: stream
      · obtain ⟨w, hw⟩ := Text.exists_isLeast_completions hword
        by_cases herror : ∃ e, IsLeast (Text.completions errorTag stream) e ∧ e < w
        · obtain ⟨e, he, hlt⟩ := herror
          exact ⟨false, fun a ↦ a.result_of_far hopen he hw (h e w he hw hlt)⟩
        · refine ⟨true, fun a ↦ a.result_of_le hopen hw fun k hk ↦ ?_⟩
          have hstream : errorTag <:+: stream := by
            rw [a.shown_eq_take k] at hk
            exact hk.trans (List.take_prefix _ stream).isInfix
          obtain ⟨e, he⟩ := Text.exists_isLeast_completions hstream
          exact (not_lt.mp fun hlt ↦ herror ⟨e, he, hlt⟩).trans ((a.isInfix_shown_iff he k).mp hk)
      · refine ⟨false, fun a ↦ a.result_of_gap hopen fun k hk ↦ absurd ?_ hword⟩
        rw [a.shown_eq_take k] at hk
        exact hk.trans (List.take_prefix _ stream).isInfix
    intro a b
    rw [hverdict a, hverdict b]

/-- A connected line on which nothing has happened. -/
def freshLine : AtLine := ⟨[], ⟨3, true⟩, [], [], [], []⟩

/-- `OK` with an error behind it. -/
theorem waitATResponse_cut_ok :
    freshLine.UT_ATPort.bConnected = true ∧
      ∀ a b : Arrival 5 (ascii ['O', 'K'] ++ errorTag),
        a.result (ascii ['O', 'K']) freshLine = b.result (ascii ['O', 'K']) freshLine := by
  refine ⟨rfl, (waitATResponse_cut_iff freshLine (ascii ['O', 'K'])
    (ascii ['O', 'K'] ++ errorTag) 5 rfl).mpr fun e w he hw hlt ↦ ?_⟩
  have hword : w ≤ 2 :=
    hw.2 (show ascii ['O', 'K'] <:+: (ascii ['O', 'K'] ++ errorTag).take 2 by decide)
  have herror : errorTag <:+: (ascii ['O', 'K'] ++ errorTag).take 1 :=
    (Text.mem_completions_iff he).mpr (by omega)
  exact absurd herror (by decide)

/-- `ERROR:` and `OK`. -/
def errorPiece : Piece := ⟨errorTag, by decide, by decide⟩

def okPiece : Piece := ⟨ascii ['O', 'K'], by decide, by decide⟩

def errorOkPiece : Piece := ⟨errorTag ++ ascii ['O', 'K'], by decide, by decide⟩

/-- `ERROR:OK` in one piece and in two. -/
theorem waitATResponse_cut_twice :
    (Arrival.ofPieces 5 (show [errorOkPiece].flatMap Piece.bytes =
        errorTag ++ ascii ['O', 'K'] by decide)).result (ascii ['O', 'K']) freshLine = .ok true ∧
      (Arrival.ofPieces 5 (show [errorPiece, okPiece].flatMap Piece.bytes =
        errorTag ++ ascii ['O', 'K'] by decide)).result (ascii ['O', 'K']) freshLine = .ok false :=
  ⟨rfl, rfl⟩

end DeviceAgent
