import DeviceAgent.CurrentData
import DeviceAgent.ConfigFile

/-!
# Timers

The next time for an action is a multiple of an interval behind the clock, as long as the
clock of 32 bits has it.  For the measurements that holds even when the clock is set back
in the middle of a call.  The rest until then is computed in microseconds in a word of 32
bits, which holds thirty-five minutes; and the interval of the configuration may be any
number, zero and negative ones included.
-/

namespace DeviceAgent

open ReadResult

/-! ## The next measurement -/

def Timeval.Normal (t : Timeval) : Prop := 0 ≤ t.tv_usec ∧ t.tv_usec < 1000000

/-- The interval of a call for an answer of so many minutes; a zero counts as no
answer. -/
def intervalSecond : Option Byte → ℤ
  | none => 120
  | some m => if m.toNat = 0 then 120 else m.toNat * 60

theorem intervalSecond_pos (answer : Option Byte) : 0 < intervalSecond answer := by
  cases answer with
  | none => decide
  | some m =>
      rw [intervalSecond]
      split <;> omega

/-- The minutes in the frame that answers the request for the condition. -/
def minutes (frame : List Byte) : Option Byte := frame[7]?

theorem int32_bounds (x : ℤ) : -(2 ^ 31) ≤ int32 x ∧ int32 x < 2 ^ 31 :=
  Periods.wrap_bounds 31 x

theorem int32_eq_self {x : ℤ} (hlow : -(2 ^ 31) ≤ x) (hhigh : x < 2 ^ 31) : int32 x = x :=
  Periods.wrap_eq_self hlow hhigh

theorem nextTime32_eq {n : ℤ} {tmNow : Timeval} (hsec : 0 ≤ tmNow.tv_sec) :
    nextTime32 n tmNow = ⟨int32 (Periods.next n tmNow.tv_sec), 0⟩ := by
  rw [nextTime32, int32, int32, Periods.wrap_wrap_mul, Int.tdiv_eq_ediv_of_nonneg hsec]
  rfl

theorem isTimeForAction_iff {timer tmNow : Timeval} (htimer : timer.Normal)
    (hnow : tmNow.Normal) :
    isTimeForAction timer tmNow = true ↔ timer.micros ≤ tmNow.micros := by
  obtain ⟨h₁, h₂⟩ := htimer
  obtain ⟨h₃, h₄⟩ := hnow
  rw [isTimeForAction, Timeval.after, Bool.not_eq_true']
  unfold Timeval.micros
  split <;> rw [decide_eq_false_iff_not] <;> omega

namespace CurrentData

theorem requestLoop_timer (request : List Byte) (tries : ℕ) (s : CurrentData) :
    (requestLoop request tries s).2.tmCurrentDataActive = s.tmCurrentDataActive ∧
      (requestLoop request tries s).2.clockSet = s.clockSet ∧
      (requestLoop request tries s).2.slept = s.slept := by
  induction tries generalizing s with
  | zero => exact ⟨rfl, rfl, rfl⟩
  | succ tries ih =>
      simp only [requestLoop]
      split
      · exact ⟨rfl, rfl, rfl⟩
      · exact ih _

section Call

variable (machine : Byte) (c : Clocks) (beyond : List Byte) (line : List (Option Byte))
  (timer : Timeval) (bIn : Bool)

/-- The time of the device as the call finds it. -/
def nowMP : ℤ := ((call beyond line timer bIn).getMPTime c.mktime machine).1

theorem getMPIntervalSecond_fst (s : CurrentData)
    (hline : s.line = ((Packet.mk [] []).receiveFrameFrom (serialReads line)).rest) :
    (if (s.getMPIntervalSecond machine).1 = 0 then 120 else (s.getMPIntervalSecond machine).1) =
      intervalSecond (minutes (frameAt (serialReads line) 1)) := by
  obtain ⟨p, hp⟩ : ∃ p, p = ((Packet.mk [] []).receiveFrameFrom s.line).packet := ⟨_, rfl⟩
  have hframe : p.strCache = frameAt (serialReads line) 1 := by
    rw [hp, hline]
    rfl
  have hvalue : (s.getMPIntervalSecond machine).1 =
      if p.getSize ≠ 0 then p.getInterval * 60 else 120 := by
    rw [hp]
    rfl
  rw [hvalue, ← hframe]
  rcases frameAt_of_quiet (fail_notMem_serialReads line) 1 with hnone | hok
  · rw [← hframe] at hnone
    simp [Packet.getSize, hnone, minutes, intervalSecond]
  · rw [← hframe] at hok
    have hnine := length_ge_of_isFrameCRCOK hok
    have hseven : p.strCache[7]? = some (p.byteAt 7) := by
      rw [Packet.byteAt_of_lt p (by omega), List.getD_eq_getElem?_getD,
        List.getElem?_eq_getElem (by omega), Option.getD_some]
    have hsize : ¬ p.getSize < 1 := by
      rw [Packet.getSize]
      omega
    have hinterval : p.getInterval = (p.byteAt 7).toNat := if_neg hsize
    rw [minutes, hseven, hinterval]
    simp only [intervalSecond]
    split <;> split <;> omega

theorem requestCurrentData_timer (htime : isTimeForAction timer c.tmNow = true) :
    ((call beyond line timer bIn).requestCurrentData machine c).tmCurrentDataActive =
        nextTime32 (intervalSecond (minutes (frameAt (serialReads line) 1))) c.tmReserve ∧
      ((call beyond line timer bIn).requestCurrentData machine c).clockSet =
        newClock (nowMP machine c beyond line timer bIn) c.nowLocal ∧
      ((call beyond line timer bIn).requestCurrentData machine c).slept =
        restBefore (nowMP machine c beyond line timer bIn) timer := by
  have hdue : isTimeForAction (call beyond line timer bIn).tmCurrentDataActive c.tmNow = true :=
    htime
  rw [requestCurrentData, if_pos hdue]
  dsimp only
  refine ⟨?_, ?_, ?_⟩
  · rw [(requestLoop_timer _ _ _).1]
    dsimp only
    rw [getMPIntervalSecond_fst machine line _ rfl, setReservedTime,
      if_neg (intervalSecond_pos _).ne', Option.getD_some]
  · rw [(requestLoop_timer _ _ _).2.1]
    rfl
  · rw [(requestLoop_timer _ _ _).2.2]
    rfl

end Call

/-- The earliest the clock can be behind a call's `settimeofday` and `sleep`: it goes
forward, unless it has been set. -/
def earliest (succeeds : Bool) (tmNow : Timeval) (clockSet : Option ℤ) (slept : ℤ) : ℤ :=
  match clockSet, succeeds with
  | some now, true => now * 1000000 + slept * 1000000
  | _, _ => tmNow.micros + slept * 1000000

theorem restBefore_nonneg (nowMP : ℤ) (timer : Timeval) : 0 ≤ restBefore nowMP timer := by
  unfold restBefore
  dsimp only
  split <;> omega

/-- A clock set to a time before the slot is behind it again when the call goes on. -/
theorem le_add_restBefore {nowMP : ℤ} {timer : Timeval} (hset : nowMP ≠ 0)
    (hMP : timer.tv_sec - 10 < nowMP) : timer.tv_sec ≤ nowMP + restBefore nowMP timer := by
  by_cases hbefore : nowMP < timer.tv_sec
  · have hdt : int32 (timer.tv_sec - nowMP) = timer.tv_sec - nowMP :=
      int32_eq_self (by omega) (by omega)
    simp only [restBefore, hdt]
    split <;> omega
  · have hrest := restBefore_nonneg nowMP timer
    omega

theorem newClock_eq_some {nowMP now : ℤ} {nowLocal : Option ℤ}
    (h : newClock nowMP nowLocal = some now) : now = nowMP ∧ nowMP ≠ 0 := by
  cases nowLocal with
  | none => cases h
  | some nowLocal =>
      simp only [newClock] at h
      generalize (if nowLocal < nowMP then int32 (nowMP - nowLocal) else
        int32 (nowLocal - nowMP)) = dt at h
      split_ifs at h with hset
      exact ⟨(Option.some.inj h).symm, hset.1⟩

theorem slot_le_earliest {succeeds : Bool} {tmNow timer : Timeval} {nowMP : ℤ}
    {nowLocal : Option ℤ} (htimer : timer.tv_usec = 0) (hdue : timer.micros ≤ tmNow.micros)
    (hMP : nowMP = 0 ∨ timer.tv_sec - 10 < nowMP) :
    timer.micros ≤ earliest succeeds tmNow (newClock nowMP nowLocal) (restBefore nowMP timer) := by
  have hrest := restBefore_nonneg nowMP timer
  have hforward : timer.micros ≤ tmNow.micros + restBefore nowMP timer * 1000000 := by omega
  cases hclock : newClock nowMP nowLocal with
  | none => exact hforward
  | some now =>
      cases succeeds with
      | false => exact hforward
      | true =>
          obtain ⟨rfl, hset⟩ := newClock_eq_some hclock
          have hslot := le_add_restBefore hset (hMP.resolve_left hset)
          rw [earliest, Timeval.micros, htimer]
          omega

/-- `timer'` is a multiple of the interval `n`, behind the slot `timer` and behind the
clock, by no more than one interval. -/
structure NextSlot (n : ℤ) (timer clock timer' : Timeval) : Prop where
  usec : timer'.tv_usec = 0
  aligned : n ∣ timer'.tv_sec
  later : timer.micros < timer'.micros
  future : clock.micros < timer'.micros
  soon : timer'.micros ≤ clock.micros + n * 1000000

theorem nextSlot_next {n : ℤ} (hn : 0 < n) {timer clock : Timeval} (hclock : clock.Normal)
    (hslot : timer.micros ≤ clock.micros) :
    NextSlot n timer clock ⟨Periods.next n clock.tv_sec, 0⟩ := by
  obtain ⟨hlow, hhigh⟩ := hclock
  have hlt := Periods.lt_next hn clock.tv_sec
  have hle := Periods.next_le hn clock.tv_sec
  have hmicros : (⟨Periods.next n clock.tv_sec, 0⟩ : Timeval).micros =
      Periods.next n clock.tv_sec * 1000000 := add_zero _
  have hafter : clock.micros < (⟨Periods.next n clock.tv_sec, 0⟩ : Timeval).micros := by
    rw [hmicros, Timeval.micros]
    omega
  refine ⟨rfl, Periods.dvd_next n _, hslot.trans_lt hafter, hafter, ?_⟩
  rw [hmicros, Timeval.micros]
  omega

/-- What is stored is the next slot exactly if a word of 32 bits holds it. -/
theorem nextSlot_nextTime32_iff {n : ℤ} (hn : 0 < n) {timer clock : Timeval}
    (hclock : clock.Normal) (hepoch : 0 ≤ clock.tv_sec) (hslot : timer.micros ≤ clock.micros) :
    NextSlot n timer clock (nextTime32 n clock) ↔ Periods.next n clock.tv_sec < 2 ^ 31 := by
  rw [nextTime32_eq hepoch]
  constructor
  · intro hnext
    have hfuture : clock.tv_sec < int32 (Periods.next n clock.tv_sec) := by
      have hahead := hnext.future
      have husec := hclock.1
      rw [Timeval.micros, Timeval.micros] at hahead
      dsimp only at hahead
      omega
    have hleast := (Periods.isLeast_next hn clock.tv_sec).2 ⟨hnext.aligned, hfuture⟩
    exact hleast.trans_lt (int32_bounds _).2
  · intro hfits
    have hlt := Periods.lt_next hn clock.tv_sec
    rw [int32_eq_self (by omega) hfits]
    exact nextSlot_next hn hclock hslot

/-- A call that runs moves the timer to the next slot, however the clock of the device
stands, exactly if the clock of 32 bits has that slot. -/
theorem requestCurrentData_next_slot_iff (machine : Byte) (c : Clocks) (succeeds : Bool)
    (beyond : List Byte) (line : List (Option Byte)) (timer : Timeval) (bIn : Bool)
    (htimer : timer.tv_usec = 0) (hnow : c.tmNow.Normal) (hreserve : c.tmReserve.Normal)
    (hepoch : 0 ≤ c.tmReserve.tv_sec) (hdue : isTimeForAction timer c.tmNow = true)
    (hMP : nowMP machine c beyond line timer bIn = 0 ∨
      timer.tv_sec - 10 < nowMP machine c beyond line timer bIn)
    (hclock : earliest succeeds c.tmNow
        ((call beyond line timer bIn).requestCurrentData machine c).clockSet
        ((call beyond line timer bIn).requestCurrentData machine c).slept ≤
      c.tmReserve.micros) :
    NextSlot (intervalSecond (minutes (frameAt (serialReads line) 1))) timer c.tmReserve
        ((call beyond line timer bIn).requestCurrentData machine c).tmCurrentDataActive ↔
      Periods.next (intervalSecond (minutes (frameAt (serialReads line) 1)))
        c.tmReserve.tv_sec < 2 ^ 31 := by
  obtain ⟨hnext, hset, hslept⟩ := requestCurrentData_timer machine c beyond line timer bIn hdue
  have hslot : timer.micros ≤ c.tmReserve.micros := by
    rw [hset, hslept] at hclock
    refine (slot_le_earliest htimer ?_ hMP).trans hclock
    apply (isTimeForAction_iff _ hnow).mp hdue
    rw [Timeval.Normal, htimer]
    decide
  rw [hnext]
  exact nextSlot_nextTime32_iff (intervalSecond_pos _) hreserve hepoch hslot

/-- The device answers with a time, then with an interval of five minutes. -/
def fiveMinutes : List (Option Byte) :=
  ((Packet.mk [] []).buildPacket (0x63#8 :: 0x6b#8 :: List.replicate 9 0x00#8)
      0x01#8).strCache.map some ++
    ((Packet.mk [] []).buildPacket [0x63#8, 0x61#8, 0x00#8, 0x00#8, 0x05#8] 0x01#8).strCache.map
      some

/-- The slot of second 600 is served at 605; the device says 595. -/
def aheadOfDevice : Clocks := ⟨⟨605, 0⟩, some 605, ⟨601, 0⟩, fun _ ↦ 595⟩

/-- The clock is set back by ten seconds and the call sleeps for six. -/
theorem next_slot_of_clock_set_back :
    ((call [] fiveMinutes ⟨600, 0⟩ false).requestCurrentData 0x01#8 aheadOfDevice).clockSet =
        some 595 ∧
      ((call [] fiveMinutes ⟨600, 0⟩ false).requestCurrentData 0x01#8 aheadOfDevice).slept = 6 ∧
      NextSlot 300 ⟨600, 0⟩ ⟨601, 0⟩ ((call [] fiveMinutes ⟨600, 0⟩ false).requestCurrentData
        0x01#8 aheadOfDevice).tmCurrentDataActive := by
  have hinterval : intervalSecond (minutes (frameAt (serialReads fiveMinutes) 1)) = 300 := by
    decide +kernel
  have hMP : nowMP 0x01#8 aheadOfDevice [] fiveMinutes ⟨600, 0⟩ false = 595 := by
    decide +kernel
  have hset : ((call [] fiveMinutes ⟨600, 0⟩ false).requestCurrentData 0x01#8
      aheadOfDevice).clockSet = some 595 := by decide +kernel
  have hslept : ((call [] fiveMinutes ⟨600, 0⟩ false).requestCurrentData 0x01#8
      aheadOfDevice).slept = 6 := by decide +kernel
  refine ⟨hset, hslept, ?_⟩
  rw [← hinterval]
  refine (requestCurrentData_next_slot_iff 0x01#8 aheadOfDevice true [] fiveMinutes ⟨600, 0⟩ false
    rfl ⟨by decide, by decide⟩ ⟨by decide, by decide⟩ (by decide) (by decide) ?_ ?_).mpr ?_
  · rw [hMP]
    decide
  · rw [hset, hslept]
    decide
  · rw [hinterval]
    decide

/-- The last slot before the end of the clock is served; the device agrees with it. -/
def atLastSlot : Clocks :=
  ⟨⟨2147483500, 0⟩, some 2147483500, ⟨2147483500, 0⟩, fun _ ↦ 2147483500⟩

/-- The slot behind it is stored as a time before the epoch. -/
theorem slot_wraps_around :
    isTimeForAction ⟨2147483400, 0⟩ atLastSlot.tmNow = true ∧
      nowMP 0x01#8 atLastSlot [] fiveMinutes ⟨2147483400, 0⟩ false = 2147483500 ∧
      ((call [] fiveMinutes ⟨2147483400, 0⟩ false).requestCurrentData 0x01#8
        atLastSlot).clockSet = none ∧
      ((call [] fiveMinutes ⟨2147483400, 0⟩ false).requestCurrentData 0x01#8
        atLastSlot).slept = 0 ∧
      ((call [] fiveMinutes ⟨2147483400, 0⟩ false).requestCurrentData 0x01#8
        atLastSlot).tmCurrentDataActive = ⟨-2147483596, 0⟩ ∧
      ¬ NextSlot 300 ⟨2147483400, 0⟩ ⟨2147483500, 0⟩ ((call [] fiveMinutes ⟨2147483400, 0⟩
        false).requestCurrentData 0x01#8 atLastSlot).tmCurrentDataActive := by
  have hstored : ((call [] fiveMinutes ⟨2147483400, 0⟩ false).requestCurrentData 0x01#8
      atLastSlot).tmCurrentDataActive = ⟨-2147483596, 0⟩ := by decide +kernel
  refine ⟨by decide, by decide +kernel, by decide +kernel, by decide +kernel, hstored, ?_⟩
  rw [hstored]
  exact fun hnext ↦ absurd hnext.future (by decide)

end CurrentData

/-! ## Resting -/

namespace Timeval

def timersub32 (a b : Timeval) : Timeval :=
  let tv_sec := int32 (a.tv_sec - b.tv_sec)
  let tv_usec := int32 (a.tv_usec - b.tv_usec)
  if tv_usec < 0 then ⟨int32 (tv_sec - 1), int32 (tv_usec + 1000000)⟩ else ⟨tv_sec, tv_usec⟩

def micros32 (t : Timeval) : ℤ := int32 (int32 (t.tv_sec * 1000000) + t.tv_usec)

/-- The wrap-around of the parts is that of the whole. -/
theorem micros32_timersub32 (a b : Timeval) :
    (a.timersub32 b).micros32 = int32 (a.micros - b.micros) := by
  unfold timersub32 micros32 micros int32
  dsimp only
  split
  · simp only [Periods.wrap_wrap_add, Periods.wrap_wrap_sub, Periods.wrap_wrap_mul,
      Periods.wrap_add_wrap]
    congr 1
    ring
  · simp only [Periods.wrap_wrap_add, Periods.wrap_wrap_mul, Periods.wrap_add_wrap]
    congr 1
    ring

end Timeval

/-- A distance ahead that does not get shorter was held as it is. -/
theorem int32_eq_of_le {x : ℤ} (hpos : 0 < x) (hle : x ≤ int32 x) : int32 x = x :=
  int32_eq_self (by omega) (hle.trans_lt (int32_bounds x).2)

/-- The microseconds `PatrolRest` sleeps. -/
def patrolRest (tmCurrentDataActive tmHealthCheckActive tmNow : Timeval) : ℤ :=
  let n1 := (tmCurrentDataActive.timersub32 tmNow).micros32
  let n2 := (tmHealthCheckActive.timersub32 tmNow).micros32
  let n1 := if n1 < 0 then 0 else n1
  let n2 := if n2 < 0 then 0 else n2
  if n2 < n1 then n2 else n1

theorem patrolRest_eq (tmCurrentDataActive tmHealthCheckActive tmNow : Timeval) :
    patrolRest tmCurrentDataActive tmHealthCheckActive tmNow =
      min (max 0 (int32 (tmCurrentDataActive.micros - tmNow.micros)))
        (max 0 (int32 (tmHealthCheckActive.micros - tmNow.micros))) := by
  unfold patrolRest
  simp only [Timeval.micros32_timersub32]
  split_ifs <;> omega

/-- The microseconds from the clock to a timer. -/
def distance (timer : Timeval) (tmNow : Reading) : ℤ := timer.micros - tmNow.micros

/-- The rest computed from two distances is right: with both timers ahead, neither
wrapped distance is below the nearer one; with one reached, one of the wrapped
distances says so. -/
def RestFits (d₁ d₂ : ℤ) : Prop :=
  (0 < d₁ ∧ 0 < d₂ ∧ min d₁ d₂ ≤ int32 d₁ ∧ min d₁ d₂ ≤ int32 d₂) ∨
    ((d₁ ≤ 0 ∨ d₂ ≤ 0) ∧ (int32 d₁ ≤ 0 ∨ int32 d₂ ≤ 0))

theorem clamped_eq_zero_iff (x y : ℤ) : min (max 0 x) (max 0 y) = 0 ↔ x ≤ 0 ∨ y ≤ 0 := by
  omega

theorem restFits_iff (d₁ d₂ : ℤ) :
    min (max 0 (int32 d₁)) (max 0 (int32 d₂)) = min (max 0 d₁) (max 0 d₂) ↔ RestFits d₁ d₂ := by
  unfold RestFits
  by_cases hahead : 0 < d₁ ∧ 0 < d₂
  · obtain ⟨hpos₁, hpos₂⟩ := hahead
    rw [max_eq_right hpos₁.le, max_eq_right hpos₂.le]
    constructor
    · intro hrest
      exact Or.inl ⟨hpos₁, hpos₂, by omega, by omega⟩
    · rintro (⟨-, -, hle₁, hle₂⟩ | ⟨hreached, -⟩)
      · -- the nearer distance is held as it is, and the other one is not below it
        rcases le_total d₁ d₂ with hnear | hnear
        · rw [min_eq_left hnear] at hle₁ hle₂ ⊢
          rw [int32_eq_of_le hpos₁ hle₁, max_eq_right hpos₁.le, max_eq_right (hpos₁.le.trans hle₂),
            min_eq_left hle₂]
        · rw [min_eq_right hnear] at hle₁ hle₂ ⊢
          rw [int32_eq_of_le hpos₂ hle₂, max_eq_right hpos₂.le, max_eq_right (hpos₂.le.trans hle₁),
            min_eq_right hle₁]
      · exact absurd hreached (by omega)
  · have hreached : d₁ ≤ 0 ∨ d₂ ≤ 0 := by omega
    rw [(clamped_eq_zero_iff d₁ d₂).mpr hreached, clamped_eq_zero_iff]
    constructor
    · exact fun hrest ↦ Or.inr ⟨hreached, hrest⟩
    · rintro (⟨hpos₁, hpos₂, -⟩ | ⟨-, hrest⟩)
      · exact absurd ⟨hpos₁, hpos₂⟩ hahead
      · exact hrest

/-- `PatrolRest` sleeps until the nearer of the two timers exactly if the distances
fit; the timers are any that `setReservedTime` can have stored. -/
theorem patrolRest_exact_iff (answer : Option Byte) (tmData tmHealth tmNow : Reading) :
    patrolRest (nextTime32 (intervalSecond answer) tmData.tm) (nextTime32 30 tmHealth.tm)
        tmNow.tm =
      min (max 0 (distance (nextTime32 (intervalSecond answer) tmData.tm) tmNow))
        (max 0 (distance (nextTime32 30 tmHealth.tm) tmNow)) ↔
      RestFits (distance (nextTime32 (intervalSecond answer) tmData.tm) tmNow)
        (distance (nextTime32 30 tmHealth.tm) tmNow) := by
  rw [patrolRest_eq]
  exact restFits_iff _ _

def tenMinutes : Reading := IdleClock.second 600 (by norm_num)

/-- Fifty minutes before a measurement, with the next health check in thirty seconds,
the thread does not rest at all. -/
theorem patrolRest_of_hour :
    distance (nextTime32 (intervalSecond (some 60)) tenMinutes.tm) tenMinutes = 3000 * 1000000 ∧
      distance (nextTime32 30 tenMinutes.tm) tenMinutes = 30 * 1000000 ∧
      patrolRest (nextTime32 (intervalSecond (some 60)) tenMinutes.tm)
        (nextTime32 30 tenMinutes.tm) tenMinutes.tm = 0 := by
  decide

/-! ## Waking up for the next measurement -/

/-- The setting that `main_work` takes from the configuration. -/
def Config.nIntervalSetting (conf : Config) : ℤ := conf.getIntervalSecond

theorem Config.nIntervalSetting_bounds (conf : Config) :
    -(2 ^ 31) ≤ conf.nIntervalSetting ∧ conf.nIntervalSetting < 2 ^ 31 := by
  rw [nIntervalSetting, getIntervalSecond, getNumber_eq]
  cases conf.found Key.INTERVAL with
  | none => norm_num
  | some text => exact asInt_bounds conf.large (leadingInt text)

/-- The wake time of `SleepForPowerOn` and the argument of its `usleep`, which is
unsigned. -/
def sleepForPowerOn (nIntervalSetting : ℤ) (tmNow : Timeval) : Option (Timeval × ℤ) :=
  if nIntervalSetting = 0 then none
  else
    let tmWake := nextTime32 nIntervalSetting tmNow
    let tmSleep := tmWake.timersub32 tmNow
    some (tmWake, tmSleep.micros32 % 2 ^ 32)

/-- The earliest time in whole seconds that is a multiple of `n` and ahead of the
clock. -/
def IsWakeTime (n : ℤ) (tmNow : Reading) (tmWake : Timeval) : Prop :=
  tmWake.tv_usec = 0 ∧ IsLeast {t | n ∣ t ∧ tmNow.micros < t * 1000000} tmWake.tv_sec

theorem IsWakeTime.lt {n : ℤ} {tmNow : Reading} {tmWake : Timeval}
    (h : IsWakeTime n tmNow tmWake) : tmNow.tm.tv_sec < tmWake.tv_sec := by
  have hahead := h.2.1.2
  have husec := tmNow.usec_nonneg
  rw [Reading.micros, Timeval.micros] at hahead
  omega

theorem isWakeTime_iff {n : ℤ} (hn : 0 < n) (tmNow : Reading) (tmWake : Timeval) :
    IsWakeTime n tmNow tmWake ↔ tmWake = ⟨Periods.next n tmNow.tm.tv_sec, 0⟩ := by
  have hset : {t | n ∣ t ∧ tmNow.micros < t * 1000000} = {t | n ∣ t ∧ tmNow.tm.tv_sec < t} := by
    have hlow := tmNow.usec_nonneg
    have hhigh := tmNow.usec_lt
    ext t
    refine and_congr_right fun _ ↦ ?_
    rw [Reading.micros, Timeval.micros]
    omega
  have hleast := Periods.isLeast_next hn tmNow.tm.tv_sec
  rw [IsWakeTime, hset]
  constructor
  · rintro ⟨husec, hwake⟩
    have hsec := hwake.unique hleast
    rw [← hsec, ← husec]
  · rintro rfl
    exact ⟨rfl, hleast⟩

/-- The quotient by a negative interval is rounded up, and one more leads backwards. -/
theorem nextTime32_lt {n : ℤ} (hn : n < 0) (hlow : -(2 ^ 31) ≤ n) (tmNow : Reading) :
    (nextTime32 n tmNow.tm).tv_sec < tmNow.tm.tv_sec := by
  have hsec := tmNow.sec_nonneg
  have hlast := tmNow.sec_lt
  have hquot : tmNow.tm.tv_sec / n ≤ 0 := Int.ediv_nonpos_of_nonneg_of_nonpos hsec hn.le
  have hbelow : tmNow.tm.tv_sec / n * n ≤ tmNow.tm.tv_sec := Int.ediv_mul_le _ hn.ne
  have habove : 0 ≤ tmNow.tm.tv_sec / n * n := mul_nonneg_of_nonpos_of_nonpos hquot hn.le
  have hnext : Periods.next n tmNow.tm.tv_sec = tmNow.tm.tv_sec / n * n + n := by
    rw [Periods.next, add_mul, one_mul]
  rw [nextTime32_eq hsec]
  change int32 (Periods.next n tmNow.tm.tv_sec) < tmNow.tm.tv_sec
  rw [int32_eq_self (by omega) (by omega)]
  omega

theorem sleepForPowerOn_eq {n : ℤ} (hn : n ≠ 0) (tmNow : Reading) :
    sleepForPowerOn n tmNow.tm =
      some (nextTime32 n tmNow.tm, distance (nextTime32 n tmNow.tm) tmNow % 2 ^ 32) := by
  have hwrap := Periods.wrap_emod (w := 32) (distance (nextTime32 n tmNow.tm) tmNow)
  rw [sleepForPowerOn, if_neg hn]
  dsimp only
  rw [Timeval.micros32_timersub32]
  exact congrArg (fun arg ↦ some (nextTime32 n tmNow.tm, arg)) hwrap

section Wake

variable {n : ℤ} (hn : 0 < n) (tmNow : Reading)

include hn

/-- The wake time is right exactly if the clock of 32 bits has it. -/
theorem isWakeTime_nextTime32_iff :
    IsWakeTime n tmNow (nextTime32 n tmNow.tm) ↔ Periods.next n tmNow.tm.tv_sec < 2 ^ 31 := by
  rw [isWakeTime_iff hn, nextTime32_eq tmNow.sec_nonneg]
  constructor
  · intro hwake
    have hsec : int32 (Periods.next n tmNow.tm.tv_sec) = Periods.next n tmNow.tm.tv_sec :=
      congrArg Timeval.tv_sec hwake
    rw [← hsec]
    exact (int32_bounds _).2
  · intro hclock
    have hlt := Periods.lt_next hn tmNow.tm.tv_sec
    have hsec := tmNow.sec_nonneg
    rw [int32_eq_self (by omega) hclock]

/-- With the right wake time the rest is right exactly if it fits in the argument. -/
theorem rest_exact_iff (hclock : Periods.next n tmNow.tm.tv_sec < 2 ^ 31) :
    distance (nextTime32 n tmNow.tm) tmNow % 2 ^ 32 = distance (nextTime32 n tmNow.tm) tmNow ↔
      Periods.next n tmNow.tm.tv_sec * 1000000 - tmNow.micros < 2 ^ 32 := by
  have hwake := (isWakeTime_iff hn tmNow _).mp ((isWakeTime_nextTime32_iff hn tmNow).mpr hclock)
  have hdistance : distance (nextTime32 n tmNow.tm) tmNow =
      Periods.next n tmNow.tm.tv_sec * 1000000 - tmNow.micros := by
    rw [hwake, distance, Timeval.micros, add_zero]
  have hahead : tmNow.micros < Periods.next n tmNow.tm.tv_sec * 1000000 := by
    have hlt := Periods.lt_next hn tmNow.tm.tv_sec
    have husec := tmNow.usec_lt
    rw [Reading.micros, Timeval.micros]
    omega
  rw [hdistance]
  omega

end Wake

/-- The wake time is right, and the rest until then too, exactly if the interval is
positive, the wake time is before the end of the 32-bit clock, and the rest fits in
the unsigned argument of `usleep`. -/
theorem sleepForPowerOn_exact_iff (conf : Config) (tmNow : Reading) :
    ((∃ tmWake arg,
        sleepForPowerOn conf.nIntervalSetting tmNow.tm = some (tmWake, arg) ∧
          IsWakeTime conf.nIntervalSetting tmNow tmWake ∧ arg = distance tmWake tmNow) ∧
        (setReservedTime conf.nIntervalSetting tmNow.tm).isSome = true) ↔
      0 < conf.nIntervalSetting ∧
        Periods.next conf.nIntervalSetting tmNow.tm.tv_sec < 2 ^ 31 ∧
        Periods.next conf.nIntervalSetting tmNow.tm.tv_sec * 1000000 - tmNow.micros <
          2 ^ 32 := by
  obtain ⟨hlow, -⟩ := conf.nIntervalSetting_bounds
  generalize conf.nIntervalSetting = n at *
  constructor
  · rintro ⟨⟨tmWake, arg, hsleep, hwake, harg⟩, hsome⟩
    have hne : n ≠ 0 := by
      rintro rfl
      cases hsleep
    rw [sleepForPowerOn_eq hne] at hsleep
    obtain ⟨rfl, rfl⟩ := Prod.mk.inj (Option.some.inj hsleep)
    -- a negative interval leads backwards
    have hpos : 0 < n := by
      refine hne.lt_or_gt.resolve_left fun hneg ↦ ?_
      exact absurd hwake.lt (nextTime32_lt hneg hlow tmNow).asymm
    have hclock := (isWakeTime_nextTime32_iff hpos tmNow).mp hwake
    exact ⟨hpos, hclock, (rest_exact_iff hpos tmNow hclock).mp harg⟩
  · rintro ⟨hpos, hclock, hrest⟩
    refine ⟨⟨_, _, sleepForPowerOn_eq hpos.ne' tmNow, ?_, ?_⟩, ?_⟩
    · exact (isWakeTime_nextTime32_iff hpos tmNow).mpr hclock
    · exact (rest_exact_iff hpos tmNow hclock).mpr hrest
    · rw [setReservedTime, if_neg hpos.ne']
      rfl

/-- A configuration with this interval and nothing else. -/
def intervalConfig (number : List Char) : Config :=
  ⟨some (Key.INTERVAL ++ EQUALS :: ascii number ++ [LF]), 0, fun _ ↦ 0#32⟩

/-- An interval of zero is divided by, and with one of two hours `usleep` gets
less than the rest. -/
theorem sleepForPowerOn_fails :
    (intervalConfig ['0']).nIntervalSetting = 0 ∧
      sleepForPowerOn 0 tenMinutes.tm = none ∧ setReservedTime 0 tenMinutes.tm = none ∧
      (intervalConfig ['7', '2', '0', '0']).nIntervalSetting = 7200 ∧
      distance ⟨7200, 0⟩ tenMinutes = 6600 * 1000000 ∧
      sleepForPowerOn 7200 tenMinutes.tm = some (⟨7200, 0⟩, 6600 * 1000000 - 2 ^ 32) := by
  decide

end DeviceAgent
