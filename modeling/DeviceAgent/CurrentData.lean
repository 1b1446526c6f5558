import DeviceAgent.IdleTime
import DeviceAgent.SerialLine
import DeviceAgent.Foundations.Periods

/-!
# Asking for the current measurement

`RequestCurrentData` first asks the Monitoring Post for its time and for the
measuring interval, each with one read, and then asks for the measurement up to
three times.  A first read that brings no measurement is followed by a second
one, and what that brings is taken without a further look.

On the target `int`, `long` and `time_t` have 32 bits and wrap around.
-/

namespace DeviceAgent

open CommunicationCommand ReadResult

/-! ## What the answers say -/

/-- The fields of `struct tm` that `GetMPTime` fills in. -/
structure Tm where
  year : ℤ
  mon : ℤ
  mday : ℤ
  hour : ℤ
  min : ℤ
  sec : ℤ
  deriving DecidableEq, Repr

namespace Packet

def getMPTime (mktime : Tm → ℤ) (p : Packet) : ℤ :=
  if p.getSize = 0 then 0
  else if p.cmdField ≠ letters 'c' 'k' then 0
  else
    mktime ⟨(p.wordAt 7).toNat - 1900, (p.byteAt 9).toNat - 1, (p.byteAt 10).toNat,
      (p.byteAt 11).toNat, (p.byteAt 12).toNat, (p.byteAt 13).toNat⟩

def getInterval (p : Packet) : ℤ := if p.getSize < 1 then 0 else (p.byteAt 7).toNat

end Packet

/-! ## The call -/

/-- What the clocks of the host report during a call. -/
structure Clocks where
  /-- The reading of `isTimeForAction`. -/
  tmNow : Timeval
  /-- The result of `time`, unless that failed. -/
  nowLocal : Option ℤ
  /-- The reading of `setReservedTime`. -/
  tmReserve : Timeval
  mktime : Tm → ℤ

structure CurrentData where
  data : Packet
  /-- The reads of the serial line that are still to come. -/
  line : List ReadResult
  toDevice : List (List Byte)
  tmCurrentDataActive : Timeval
  bInCommunicationError : Bool
  /-- The time given to `settimeofday`, if any. -/
  clockSet : Option ℤ
  /-- The seconds slept. -/
  slept : ℤ

def isTimeForAction (timer tmNow : Timeval) : Bool := !timer.after tmNow

/-- What a word of 32 bits holds of `x`. -/
def int32 (x : ℤ) : ℤ := Periods.wrap 32 x

/-- What `setReservedTime` stores with its default alignment, and `SleepForPowerOn` takes
for its wake time. -/
def nextTime32 (n : ℤ) (tmNow : Timeval) : Timeval :=
  ⟨int32 (int32 (tmNow.tv_sec.tdiv n + 1) * n), 0⟩

/-- `none` stands for a division by zero. -/
def setReservedTime (n : ℤ) (tmNow : Timeval) : Option Timeval :=
  if n = 0 then none else some (nextTime32 n tmNow)

/-- The reads of a serial line: a byte, or nothing within the time allowed.
`SerialPort::Read` throws nothing. -/
def serialReads (line : List (Option Byte)) : List ReadResult :=
  line.map fun
    | some b => byte b
    | none => zero

namespace CurrentData

/-- A command sent to the device and its answer received in a packet of its own. -/
def ask (word : Byte × Byte) (machine : Byte) (s : CurrentData) : Packet × CurrentData :=
  let r := (Packet.mk [] []).receiveFrameFrom s.line
  (r.packet, { s with
    line := r.rest
    toDevice := s.toDevice ++ serialWrite ((Packet.mk [] []).setCommand word machine).strCache })

def getMPTime (mktime : Tm → ℤ) (machine : Byte) (s : CurrentData) : ℤ × CurrentData :=
  let answer := s.ask (letters 'c' 'k') machine
  (if answer.1.getSize ≠ 0 then answer.1.getMPTime mktime else 0, answer.2)

def getMPIntervalSecond (machine : Byte) (s : CurrentData) : ℤ × CurrentData :=
  let answer := s.ask (letters 'c' 'a') machine
  (if answer.1.getSize ≠ 0 then answer.1.getInterval * 60 else 120, answer.2)

/-- The host's clock follows the device when they are more than five seconds
apart. -/
def newClock (nowMP : ℤ) (nowLocal : Option ℤ) : Option ℤ :=
  match nowLocal with
  | some now =>
      let dt := if now < nowMP then int32 (nowMP - now) else int32 (now - nowMP)
      if nowMP ≠ 0 ∧ 5 < dt then some nowMP else none
  | none => none

def restBefore (nowMP : ℤ) (timer : Timeval) : ℤ :=
  let dt := int32 (timer.tv_sec - nowMP)
  if nowMP ≠ 0 ∧ nowMP < timer.tv_sec ∧ 0 < dt ∧ dt < 10 then dt + 1 else 0

/-- One try: the second read is made for a timeout and for a frame of another
command alike. -/
def requestTry (data : Packet) (line : List ReadResult) : Received :=
  let first := data.receiveFrameFrom line
  if first.packet.frameCommandType ≠ dataRequest then first.packet.receiveFrameFrom first.rest
  else first

/-- The tries that are left, with `retry` as the loop leaves it. -/
def requestLoop (request : List Byte) : ℕ → CurrentData → ℕ × CurrentData
  | 0, s => (0, s)
  | retry + 1, s =>
      let got := requestTry s.data s.line
      let s := { s with
        data := got.packet
        line := got.rest
        toDevice := s.toDevice ++ serialWrite request }
      if s.data.getSize ≠ 0 then (retry + 1, s) else requestLoop request retry s

def requestCurrentData (machine : Byte) (c : Clocks) (s : CurrentData) : CurrentData :=
  if isTimeForAction s.tmCurrentDataActive c.tmNow then
    let time := s.getMPTime c.mktime machine
    let s : CurrentData := { time.2 with
      clockSet := newClock time.1 c.nowLocal
      slept := restBefore time.1 s.tmCurrentDataActive }
    let interval := s.getMPIntervalSecond machine
    let nIntervalSecond := if interval.1 = 0 then 120 else interval.1
    let s : CurrentData :=
      -- the interval is not zero, so that the timer is always set
      { interval.2 with
        tmCurrentDataActive := (setReservedTime nIntervalSecond c.tmReserve).getD
          interval.2.tmCurrentDataActive }
    let asked := requestLoop ((Packet.mk [] []).setCommand (letters 'r' 'a') machine).strCache 3 s
    { asked.2 with bInCommunicationError := asked.1 == 0 && asked.2.data.getSize == 0 }
  else s

/-- A call on an empty packet, with the line and the timer as they are. -/
def call (beyond : List Byte) (line : List (Option Byte)) (timer : Timeval) (bIn : Bool) :
    CurrentData :=
  ⟨⟨[], beyond⟩, serialReads line, [], timer, bIn, none, 0⟩

/-! ## The frames on the line -/

/-- What the `k`-th of successive calls of `ReceiveFrameFrom` takes from the line;
empty for a timeout. -/
def frameAt (line : List ReadResult) : ℕ → List Byte
  | 0 => ((Packet.mk [] []).receiveFrameFrom line).packet.strCache
  | k + 1 => frameAt ((Packet.mk [] []).receiveFrameFrom line).rest k

def Measured (frame : List Byte) : Prop := (Packet.mk frame []).frameCommandType = dataRequest

instance (frame : List Byte) : Decidable (Measured frame) := by
  unfold Measured
  infer_instance

theorem receive_strCache (p : Packet) (line : List ReadResult) :
    (p.receiveFrameFrom line).packet.strCache = frameAt line 0 :=
  congrArg Prod.fst (p.receiveFrameFrom_congr ⟨[], []⟩ line)

theorem receive_rest (p : Packet) (line : List ReadResult) (k : ℕ) :
    frameAt (p.receiveFrameFrom line).rest k = frameAt line (k + 1) := by
  have hrest := congrArg (fun r ↦ r.2.1) (p.receiveFrameFrom_congr ⟨[], []⟩ line)
  exact congrArg (fun rest ↦ frameAt rest k) hrest

theorem measured_iff (p : Packet) :
    Measured p.strCache ↔ p.frameCommandType = dataRequest := by
  unfold Measured
  rw [Packet.frameCommandType_congr (p := ⟨p.strCache, []⟩) (q := p) rfl]

theorem ne_nil_of_measured {frame : List Byte} (h : Measured frame) : frame ≠ [] := by
  rintro rfl
  exact absurd h (by decide)

theorem frameAt_of_quiet {line : List ReadResult} (hline : ∀ e, fail e ∉ line) (k : ℕ) :
    frameAt line k = [] ∨ isFrameCRCOK (frameAt line k) = true := by
  induction k generalizing line with
  | zero =>
      refine Packet.receiveFrameFrom_complete _ line ?_
      cases hthrown : ((Packet.mk [] []).receiveFrameFrom line).thrown with
      | none => rfl
      | some e => exact absurd ((Packet.receiveFrameFrom_rest _ line).2 e hthrown) (hline e)
  | succ k ih =>
      apply ih
      intro e he
      exact hline e ((Packet.receiveFrameFrom_rest _ line).1.subset he)

theorem fail_notMem_serialReads (line : List (Option Byte)) (e : ChannelException) :
    fail e ∉ serialReads line := by
  intro hmem
  obtain ⟨r, -, hr⟩ := List.mem_map.mp hmem
  cases r <;> cases hr

/-! ## What the loop delivers -/

/-- The tries seen from the frames: a measurement on the first read, or else
whatever the second read brings. -/
def delivered : ℕ → (ℕ → List Byte) → List Byte
  | 0, _ => []
  | tries + 1, frames =>
      if Measured (frames 0) then frames 0
      else if frames 1 ≠ [] then frames 1
      else delivered tries (fun k ↦ frames (k + 2))

theorem requestTry_measured (data : Packet) {line : List ReadResult}
    (h : Measured (frameAt line 0)) :
    (requestTry data line).packet.strCache = frameAt line 0 := by
  have hfirst := receive_strCache data line
  rw [← hfirst, measured_iff] at h
  rw [requestTry, if_neg (not_not.mpr h), hfirst]

theorem requestTry_other (data : Packet) {line : List ReadResult}
    (h : ¬ Measured (frameAt line 0)) :
    (requestTry data line).packet.strCache = frameAt line 1 ∧
      ∀ k, frameAt (requestTry data line).rest k = frameAt line (k + 2) := by
  rw [← receive_strCache data line, measured_iff] at h
  rw [requestTry, if_pos h]
  refine ⟨?_, fun k ↦ ?_⟩
  · rw [receive_strCache, receive_rest]
  · rw [receive_rest, receive_rest]

theorem requestLoop_data (request : List Byte) (tries : ℕ) (s : CurrentData)
    (hempty : s.data.strCache = []) :
    (requestLoop request tries s).2.data.strCache = delivered tries (frameAt s.line) := by
  induction tries generalizing s with
  | zero => exact hempty
  | succ tries ih =>
      simp only [requestLoop, delivered]
      by_cases hfirst : Measured (frameAt s.line 0)
      · have hgot := requestTry_measured s.data hfirst
        have hsize : (requestTry s.data s.line).packet.getSize ≠ 0 := by
          rw [Packet.getSize, hgot]
          exact List.length_eq_zero_iff.not.mpr (ne_nil_of_measured hfirst)
        rw [if_pos hsize, if_pos hfirst]
        exact hgot
      · obtain ⟨hgot, hrest⟩ := requestTry_other s.data hfirst
        rw [if_neg hfirst]
        by_cases hsecond : frameAt s.line 1 = []
        · have hsize : ¬ (requestTry s.data s.line).packet.getSize ≠ 0 := by
            rw [Packet.getSize, hgot, hsecond]
            simp
          rw [if_neg hsize, if_neg (not_not.mpr hsecond), ih _ (hgot.trans hsecond)]
          exact congrArg (delivered tries) (funext hrest)
        · have hsize : (requestTry s.data s.line).packet.getSize ≠ 0 := by
            rw [Packet.getSize, hgot]
            exact List.length_eq_zero_iff.not.mpr hsecond
          rw [if_pos hsize, if_pos hsecond]
          exact hgot

/-- Of the frames read for a request, as far as the tries get: when the first
read of a try brings no measurement, the second one brings a measurement or
nothing.  So no try meets two frames of other commands. -/
def AtMostOneStale (tries : ℕ) (frames : ℕ → List Byte) : Prop :=
  ∀ j < tries, (∀ i < j, ¬ Measured (frames (2 * i)) ∧ frames (2 * i + 1) = []) →
    ¬ Measured (frames (2 * j)) → frames (2 * j + 1) = [] ∨ Measured (frames (2 * j + 1))

theorem atMostOneStale_succ (tries : ℕ) (frames : ℕ → List Byte) :
    AtMostOneStale (tries + 1) frames ↔
      (¬ Measured (frames 0) → frames 1 = [] ∨ Measured (frames 1)) ∧
        (¬ Measured (frames 0) → frames 1 = [] →
          AtMostOneStale tries (fun k ↦ frames (k + 2))) := by
  constructor
  · intro h
    refine ⟨h 0 (Nat.succ_pos tries) (by simp), fun hfirst hsecond j hj hbefore ↦ ?_⟩
    refine h (j + 1) (by omega) fun i hi ↦ ?_
    cases i with
    | zero => exact ⟨hfirst, hsecond⟩
    | succ i => exact hbefore i (by omega)
  · rintro ⟨hnow, hlater⟩ j hj hbefore
    cases j with
    | zero => exact hnow
    | succ j =>
        obtain ⟨hfirst, hsecond⟩ := hbefore 0 (Nat.succ_pos j)
        exact hlater hfirst hsecond j (by omega) fun i hi ↦ hbefore (i + 1) (by omega)

theorem delivered_measured_iff (tries : ℕ) (frames : ℕ → List Byte) :
    (delivered tries frames ≠ [] → Measured (delivered tries frames)) ↔
      AtMostOneStale tries frames := by
  induction tries generalizing frames with
  | zero => simp [delivered, AtMostOneStale]
  | succ tries ih =>
      rw [atMostOneStale_succ, delivered]
      by_cases hfirst : Measured (frames 0)
      · simp [hfirst]
      · rw [if_neg hfirst]
        by_cases hsecond : frames 1 = []
        · simp only [hsecond, ne_eq, not_true_eq_false, if_false, true_or, hfirst,
            not_false_eq_true, true_implies, true_and]
          exact ih _
        · simp [hfirst, hsecond]

theorem delivered_frame {tries : ℕ} {frames : ℕ → List Byte}
    (hframes : ∀ k, frames k = [] ∨ isFrameCRCOK (frames k) = true) :
    delivered tries frames = [] ∨ isFrameCRCOK (delivered tries frames) = true := by
  induction tries generalizing frames with
  | zero => exact Or.inl rfl
  | succ tries ih =>
      rw [delivered]
      split
      · exact hframes 0
      · split
        · exact hframes 1
        · exact ih fun k ↦ hframes (k + 2)

/-- When it is time, the loop is entered behind the two reads for time and
interval, with the packet as it was. -/
theorem requestCurrentData_asks (machine : Byte) (c : Clocks) (s : CurrentData)
    (htime : isTimeForAction s.tmCurrentDataActive c.tmNow = true) :
    ∃ request asking,
      (s.requestCurrentData machine c).data = (requestLoop request 3 asking).2.data ∧
      asking.data = s.data ∧
      asking.line = ((Packet.mk [] []).receiveFrameFrom
        ((Packet.mk [] []).receiveFrameFrom s.line).rest).rest := by
  rw [requestCurrentData, if_pos htime]
  dsimp only
  exact ⟨_, _, rfl, rfl, rfl⟩

theorem requestCurrentData_data (machine : Byte) (c : Clocks) (beyond : List Byte)
    (line : List (Option Byte)) (timer : Timeval) (bIn : Bool) :
    ((call beyond line timer bIn).requestCurrentData machine c).data.strCache =
      if isTimeForAction timer c.tmNow = true then
        delivered 3 fun k ↦ frameAt (serialReads line) (k + 2)
      else [] := by
  by_cases htime : isTimeForAction timer c.tmNow = true
  · obtain ⟨request, asking, hasks, hdata, hline⟩ :=
      requestCurrentData_asks machine c (call beyond line timer bIn) htime
    have hframes : frameAt asking.line = fun k ↦ frameAt (serialReads line) (k + 2) := by
      funext k
      rw [hline, receive_rest, receive_rest]
      rfl
    rw [if_pos htime, hasks, requestLoop_data request 3 asking (congrArg Packet.strCache hdata),
      hframes]
  · rw [if_neg htime, requestCurrentData]
    exact congrArg (fun s : CurrentData ↦ s.data.strCache) (if_neg htime)

theorem requestCurrentData_frame (machine : Byte) (c : Clocks) (beyond : List Byte)
    (line : List (Option Byte)) (timer : Timeval) (bIn : Bool) :
    ((call beyond line timer bIn).requestCurrentData machine c).data.strCache = [] ∨
      isFrameCRCOK ((call beyond line timer bIn).requestCurrentData machine c).data.strCache =
        true := by
  rw [requestCurrentData_data]
  split
  · exact delivered_frame fun k ↦ frameAt_of_quiet (fail_notMem_serialReads line) (k + 2)
  · exact Or.inl rfl

/-- A call on an empty packet returns empty or with a measurement exactly if it is
not yet time, or if behind the answers for time and interval no try meets two
frames of other commands in a row. -/
theorem requestCurrentData_measurement_iff (machine : Byte) (c : Clocks) (beyond : List Byte)
    (line : List (Option Byte)) (timer : Timeval) (bIn : Bool) :
    (((call beyond line timer bIn).requestCurrentData machine c).data.getSize ≠ 0 →
        ((call beyond line timer bIn).requestCurrentData machine c).data.frameCommandType =
          dataRequest) ↔
      (isTimeForAction timer c.tmNow = true →
        AtMostOneStale 3 fun k ↦ frameAt (serialReads line) (k + 2)) := by
  rw [← measured_iff, Packet.getSize, ne_eq, List.length_eq_zero_iff, requestCurrentData_data]
  split
  · rename_i htime
    rw [← delivered_measured_iff]
    exact ⟨fun h _ ↦ h, fun h ↦ h htime⟩
  · rename_i htime
    exact ⟨fun _ h ↦ absurd h htime, fun _ h ↦ absurd rfl h⟩

/-- The answers to `GetTime` and `GetCondition` as the Monitoring Post sends them. -/
def timeAnswer : List Byte :=
  ((Packet.mk [] []).buildPacket [0x63#8, 0x6b#8, 0x00#8, 0x07#8, 0x07#8, 0xda#8, 0x01#8, 0x02#8,
    0x03#8, 0x04#8, 0x05#8] 0x01#8).strCache

def conditionAnswer : List Byte :=
  ((Packet.mk [] []).buildPacket ([0x63#8, 0x61#8, 0x00#8, 0x1b#8, 0x02#8] ++
    List.replicate 26 0x30#8) 0x01#8).strCache

def measurementAnswer : List Byte :=
  ((Packet.mk [] []).buildPacket [0x72#8, 0x61#8, 0x00#8, 0x02#8, 0x00#8, 0x01#8] 0x01#8).strCache

/-- The device is slow: neither the read for the time nor that for the interval
finds an answer, then all three come.  The condition is returned as the
measurement, and the measurement stays on the line. -/
theorem requestCurrentData_returns_condition :
    let line := none :: none :: (timeAnswer ++ conditionAnswer ++ measurementAnswer).map some
    let s := (call [] line ⟨0, 0⟩ false).requestCurrentData 0x01#8
      ⟨⟨0, 0⟩, none, ⟨0, 0⟩, fun _ ↦ 0⟩
    s.data.getSize ≠ 0 ∧ s.data.frameCommandType = getCondition ∧
      s.line = measurementAnswer.map byte := by
  decide +kernel

end CurrentData

end DeviceAgent
