import DeviceAgent.Foundations.Transition

/-!
# Going to sleep

`IsTimeForSleep` subtracts the latest activity from the clock and compares the
seconds after a cast to `unsigned`.  The reference time is a running maximum,
and the clock may be set back by another thread; a negative difference then
turns into a very long idle time.
-/

namespace DeviceAgent

structure Timeval where
  tv_sec : ℤ
  tv_usec : ℤ
  deriving DecidableEq, Repr

namespace Timeval

/-- The macro `timersub`. -/
def timersub (a b : Timeval) : Timeval :=
  if a.tv_usec - b.tv_usec < 0 then
    ⟨a.tv_sec - b.tv_sec - 1, a.tv_usec - b.tv_usec + 1000000⟩
  else ⟨a.tv_sec - b.tv_sec, a.tv_usec - b.tv_usec⟩

/-- `timercmp(&a, &b, >)`. -/
def after (a b : Timeval) : Bool :=
  if a.tv_sec = b.tv_sec then decide (b.tv_usec < a.tv_usec) else decide (b.tv_sec < a.tv_sec)

def micros (t : Timeval) : ℤ := t.tv_sec * 1000000 + t.tv_usec

end Timeval

/-- What `gettimeofday` may report on the target, whose `time_t` has 32 bits. -/
structure Reading where
  tm : Timeval
  sec_nonneg : 0 ≤ tm.tv_sec
  sec_lt : tm.tv_sec < 2 ^ 31
  usec_nonneg : 0 ≤ tm.tv_usec
  usec_lt : tm.tv_usec < 1000000
  deriving DecidableEq

namespace Reading

def micros (t : Reading) : ℤ := t.tm.micros

theorem after_iff (a b : Reading) : a.tm.after b.tm = true ↔ b.micros < a.micros := by
  have ha := a.usec_nonneg
  have ha' := a.usec_lt
  have hb := b.usec_nonneg
  have hb' := b.usec_lt
  unfold Timeval.after micros Timeval.micros
  split
  · rw [decide_eq_true_iff]
    omega
  · rw [decide_eq_true_iff]
    omega

/-- The borrow makes the seconds of a difference round down. -/
theorem timersub_sec (a b : Reading) :
    (a.tm.timersub b.tm).tv_sec = (a.micros - b.micros) / 1000000 := by
  have ha := a.usec_nonneg
  have ha' := a.usec_lt
  have hb := b.usec_nonneg
  have hb' := b.usec_lt
  unfold Timeval.timersub micros Timeval.micros
  split
  · change a.tm.tv_sec - b.tm.tv_sec - 1 = _
    omega
  · change a.tm.tv_sec - b.tm.tv_sec = _
    omega

theorem sub_bounds (a b : Reading) :
    -(2 ^ 31 * 1000000) < a.micros - b.micros ∧ a.micros - b.micros < 2 ^ 31 * 1000000 := by
  have := a.sec_nonneg
  have := a.sec_lt
  have := a.usec_nonneg
  have := a.usec_lt
  have := b.sec_nonneg
  have := b.sec_lt
  have := b.usec_nonneg
  have := b.usec_lt
  unfold micros Timeval.micros
  omega

end Reading

/-- One answer of `IsTimeForSleep`: the clock it read, the activity times that
had been recorded by then, and the answer. -/
structure IdleCheck where
  tmNow : Reading
  recorded : List Reading
  answer : Bool

/-- Idle for more than the setting since every recorded activity, in exact
arithmetic, and none of them still to come. -/
def IdleCheck.Sound (setting : BitVec 32) (c : IdleCheck) : Prop :=
  (c.answer = true → ∀ t ∈ c.recorded, setting.toInt * 1000000 < c.tmNow.micros - t.micros) ∧
  ((∃ t ∈ c.recorded, c.tmNow.micros ≤ t.micros) → c.answer = false)

structure IdleClock where
  nIdleTimeSetting : BitVec 32
  tmLastActive : Reading
  srvData : Reading
  srvControl : Reading
  /-- The activity times `setLastActionTime` has been given. -/
  recorded : List Reading
  checks : List IdleCheck

namespace IdleClock

def setLastActionTime (s : IdleClock) (tm : Reading) : IdleClock :=
  { s with
    tmLastActive := if tm.tm.after s.tmLastActive.tm then tm else s.tmLastActive
    recorded := s.recorded ++ [tm] }

def isTimeForSleep (tmNow : Reading) (s : IdleClock) : Bool × IdleClock :=
  let s := s.setLastActionTime s.srvData
  let s := s.setLastActionTime s.srvControl
  let tmDiff := tmNow.tm.timersub s.tmLastActive.tm
  (s.nIdleTimeSetting.ult (BitVec.ofInt 32 tmDiff.tv_sec), s)

inductive Event
  | data (tm : Reading)
  | control (tm : Reading)
  | check (tmNow : Reading)

/-- The program starts with the setting, the clock, and the ports' last
activity. -/
def start (setting : BitVec 32) (tm srvData srvControl : Reading) : IdleClock :=
  ⟨setting, tm, srvData, srvControl, [tm], []⟩

def step (s : IdleClock) : Event → Option IdleClock
  | .data tm => some { s with srvData := tm }
  | .control tm => some { s with srvControl := tm }
  | .check tmNow =>
      let r := s.isTimeForSleep tmNow
      some { r.2 with checks := s.checks ++ [⟨tmNow, r.2.recorded, r.1⟩] }

/-- The latest of the recorded time and the two ports. -/
def latest (s : IdleClock) : ℤ :=
  max (max s.tmLastActive.micros s.srvData.micros) s.srvControl.micros

/-- The clock is not behind the latest activity, or it is behind by so much that
even a negative setting is not exceeded. -/
def ClockOk (s : IdleClock) : Event → Prop
  | .check tmNow =>
      s.latest ≤ tmNow.micros ∨
        (s.nIdleTimeSetting.toInt < 0 ∧
          tmNow.micros < s.latest + (s.nIdleTimeSetting.toInt + 1) * 1000000)
  | _ => True

/-! ## One answer -/

/-- The comparison after the cast.  A negative difference counts as more than
`2 ^ 31` seconds, and so does a negative setting. -/
theorem ult_ofInt_iff (setting : BitVec 32) {d : ℤ} (hlow : -(2 ^ 31) ≤ d) (hhigh : d < 2 ^ 31) :
    setting.ult (BitVec.ofInt 32 d) = true ↔
      (0 ≤ setting.toInt ∧ (d < 0 ∨ setting.toInt < d)) ∨
        (setting.toInt < 0 ∧ d < 0 ∧ setting.toInt < d) := by
  have hsetting := BitVec.toInt_eq_toNat_cond setting
  have hbound := setting.isLt
  rw [BitVec.ult_eq_decide, decide_eq_true_iff, BitVec.toNat_ofInt]
  split at hsetting <;> omega

theorem setLastActionTime_micros (s : IdleClock) (tm : Reading) :
    (s.setLastActionTime tm).tmLastActive.micros = max s.tmLastActive.micros tm.micros := by
  by_cases hafter : tm.tm.after s.tmLastActive.tm = true
  · have hlt := (Reading.after_iff _ _).mp hafter
    simp only [setLastActionTime, hafter, if_true]
    omega
  · have hle : ¬ s.tmLastActive.micros < tm.micros := fun h ↦
      hafter ((Reading.after_iff _ _).mpr h)
    simp only [setLastActionTime, hafter, if_false, Bool.false_eq_true]
    omega

theorem isTimeForSleep_latest (tmNow : Reading) (s : IdleClock) :
    (s.isTimeForSleep tmNow).2.tmLastActive.micros = s.latest := by
  change ((s.setLastActionTime s.srvData).setLastActionTime s.srvControl).tmLastActive.micros = _
  rw [setLastActionTime_micros, setLastActionTime_micros, latest]

/-- The recorded times with their maximum. -/
structure Recorded (s : IdleClock) : Prop where
  bound : ∀ t ∈ s.recorded, t.micros ≤ s.tmLastActive.micros
  attained : ∃ t ∈ s.recorded, t.micros = s.tmLastActive.micros

theorem Recorded.setLastActionTime {s : IdleClock} (h : Recorded s) (tm : Reading) :
    Recorded (s.setLastActionTime tm) := by
  have hmax := setLastActionTime_micros s tm
  constructor
  · intro t ht
    rw [hmax]
    rcases List.mem_append.mp ht with hold | hnew
    · exact (h.bound t hold).trans (le_max_left _ _)
    · rw [List.mem_singleton.mp hnew]
      exact le_max_right _ _
  · rw [hmax]
    rcases le_total tm.micros s.tmLastActive.micros with hle | hle
    · obtain ⟨t, ht, heq⟩ := h.attained
      exact ⟨t, List.mem_append_left _ ht, by rw [heq, max_eq_left hle]⟩
    · exact ⟨tm, List.mem_append_right _ (List.mem_singleton_self tm), by rw [max_eq_right hle]⟩

theorem Recorded.isTimeForSleep {s : IdleClock} (h : Recorded s) (tmNow : Reading) :
    Recorded (s.isTimeForSleep tmNow).2 :=
  (h.setLastActionTime s.srvData).setLastActionTime s.srvControl

/-- An answer of `IsTimeForSleep` is sound exactly under the condition. -/
theorem sound_iff {s : IdleClock} (h : Recorded s) (tmNow : Reading) :
    IdleCheck.Sound s.nIdleTimeSetting
        ⟨tmNow, (s.isTimeForSleep tmNow).2.recorded, (s.isTimeForSleep tmNow).1⟩ ↔
      s.ClockOk (.check tmNow) := by
  have hafter := h.isTimeForSleep tmNow
  have hlatest := isTimeForSleep_latest tmNow s
  have hanswer : (s.isTimeForSleep tmNow).1 = s.nIdleTimeSetting.ult (BitVec.ofInt 32
      (tmNow.tm.timersub (s.isTimeForSleep tmNow).2.tmLastActive.tm).tv_sec) := rfl
  have hbounds := Reading.sub_bounds tmNow (s.isTimeForSleep tmNow).2.tmLastActive
  rw [Reading.timersub_sec] at hanswer
  have hult := ult_ofInt_iff s.nIdleTimeSetting
    (d := (tmNow.micros - (s.isTimeForSleep tmNow).2.tmLastActive.micros) / 1000000)
    (by omega) (by omega)
  rw [← hanswer] at hult
  obtain ⟨last, hlast, heq⟩ := hafter.attained
  rw [hlatest] at hult heq
  have hbound := hafter.bound
  rw [hlatest] at hbound
  simp only [ClockOk, IdleCheck.Sound]
  constructor
  · rintro ⟨-, hfuture⟩
    by_contra hclock
    push Not at hclock
    obtain ⟨hbehind, hnegative⟩ := hclock
    have hfalse := hfuture ⟨last, hlast, by omega⟩
    rw [hfalse] at hult
    have hno := mt hult.mpr (by simp)
    push Not at hno
    rcases lt_or_ge s.nIdleTimeSetting.toInt 0 with hneg | hpos
    · have hfar := hnegative hneg
      have hnot := hno.2 hneg (by omega)
      omega
    · have hnot := (hno.1 hpos).1
      omega
  · intro hclock
    constructor
    · intro htrue t ht
      have hle := hbound t ht
      have hlong := hult.mp htrue
      rcases hclock with hahead | ⟨hneg, hfar⟩ <;> omega
    · rintro ⟨t, ht, hfuture⟩
      have hle := hbound t ht
      by_contra htrue
      have hlong := hult.mp (by simpa using htrue)
      rcases hclock with hahead | ⟨hneg, hfar⟩ <;> omega

/-! ## Whole runs -/

theorem nIdleTimeSetting_step {s s' : IdleClock} {e : Event} (hstep : s.step e = some s') :
    s'.nIdleTimeSetting = s.nIdleTimeSetting := by
  cases e with
  | data tm =>
      obtain rfl := Option.some.inj hstep
      rfl
  | control tm =>
      obtain rfl := Option.some.inj hstep
      rfl
  | check tmNow =>
      obtain rfl := Option.some.inj hstep
      rfl

theorem Recorded.step {s s' : IdleClock} {e : Event} (h : Recorded s)
    (hstep : s.step e = some s') : Recorded s' := by
  cases e with
  | data tm =>
      obtain rfl := Option.some.inj hstep
      exact ⟨h.bound, h.attained⟩
  | control tm =>
      obtain rfl := Option.some.inj hstep
      exact ⟨h.bound, h.attained⟩
  | check tmNow =>
      obtain rfl := Option.some.inj hstep
      have hnext := h.isTimeForSleep tmNow
      exact ⟨hnext.bound, hnext.attained⟩

/-- One step leaves all answers sound exactly when it meets the condition. -/
theorem checks_step_iff {s s' : IdleClock} {e : Event} (h : Recorded s)
    (hsound : ∀ c ∈ s.checks, c.Sound s.nIdleTimeSetting) (hstep : s.step e = some s') :
    (∀ c ∈ s'.checks, c.Sound s'.nIdleTimeSetting) ↔ s.ClockOk e := by
  rw [nIdleTimeSetting_step hstep]
  cases e with
  | data tm =>
      obtain rfl := Option.some.inj hstep
      exact ⟨fun _ ↦ trivial, fun _ ↦ hsound⟩
  | control tm =>
      obtain rfl := Option.some.inj hstep
      exact ⟨fun _ ↦ trivial, fun _ ↦ hsound⟩
  | check tmNow =>
      obtain rfl := Option.some.inj hstep
      rw [← sound_iff h tmNow]
      constructor
      · intro hall
        exact hall _ (List.mem_append_right _ (List.mem_singleton_self _))
      · intro hlast c hc
        rcases List.mem_append.mp hc with hold | hnew
        · exact hsound c hold
        · rw [List.mem_singleton.mp hnew]
          exact hlast

/-- In every run whose checks find the clock not behind the latest activity, all
answers are sound; from a state of such a run a check is sound exactly when it
meets the condition. -/
theorem sleeps_only_idle (setting : BitVec 32) (tm srvData srvControl : Reading) :
    (∀ s, Transition.Reaches step ClockOk (start setting tm srvData srvControl) s →
      ∀ c ∈ s.checks, c.Sound s.nIdleTimeSetting) ∧
    ∀ s e s', Transition.Reaches step ClockOk (start setting tm srvData srvControl) s →
      s.step e = some s' →
      ((∀ c ∈ s'.checks, c.Sound s'.nIdleTimeSetting) ↔ s.ClockOk e) := by
  have hrun : ∀ s, Transition.Reaches step ClockOk (start setting tm srvData srvControl) s →
      Recorded s ∧ ∀ c ∈ s.checks, c.Sound s.nIdleTimeSetting := by
    intro s hreach
    refine hreach.invariant
      (fun s ↦ Recorded s ∧ ∀ c ∈ s.checks, c.Sound s.nIdleTimeSetting) ?_ ?_
    · rintro s e s' ⟨hrecorded, hsound⟩ hclock hstep
      exact ⟨hrecorded.step hstep, (checks_step_iff hrecorded hsound hstep).mpr hclock⟩
    · exact ⟨⟨by simp [start], by simp [start]⟩, by simp [start]⟩
  refine ⟨fun s hreach ↦ (hrun s hreach).2, fun s e s' hreach hstep ↦ ?_⟩
  exact checks_step_iff (hrun s hreach).1 (hrun s hreach).2 hstep

/-- A reading at a full second. -/
def second (n : ℕ) (hn : (n : ℤ) < 2 ^ 31) : Reading :=
  ⟨⟨n, 0⟩, Int.natCast_nonneg n, hn, le_rfl, by norm_num⟩

/-- With a setting of 20 seconds, at second 1000, with the ports last used then. -/
def atThousand : IdleClock :=
  start 20#32 (second 1000 (by norm_num)) (second 1000 (by norm_num)) (second 1000 (by norm_num))

/-- Thirty seconds later it is time to sleep. -/
theorem sleeps_only_idle_thirty :
    ∃ s, atThousand.step (.check (second 1030 (by norm_num))) = some s ∧
      s.checks.map IdleCheck.answer = [true] ∧ ∀ c ∈ s.checks, c.Sound s.nIdleTimeSetting := by
  refine ⟨_, rfl, by decide, ?_⟩
  refine (sleeps_only_idle 20#32 (second 1000 (by norm_num)) (second 1000 (by norm_num))
    (second 1000 (by norm_num))).1 _ (.step .start (a := .check (second 1030 (by norm_num))) ?_ rfl)
  exact Or.inl (by decide)

/-- The clock is set back by 100 seconds, and it is time to sleep at once. -/
theorem sleeps_after_clock_set_back :
    ∃ s, atThousand.step (.check (second 900 (by norm_num))) = some s ∧
      s.checks.map IdleCheck.answer = [true] ∧ ¬ ∀ c ∈ s.checks, c.Sound s.nIdleTimeSetting := by
  refine ⟨_, rfl, by decide, fun h ↦ ?_⟩
  have hsound := h _ (List.mem_singleton_self _)
  have hfalse := hsound.2 ⟨second 1000 (by norm_num), by simp [atThousand, start,
    isTimeForSleep, setLastActionTime], by decide⟩
  exact absurd hfalse (by decide)

end IdleClock

end DeviceAgent
