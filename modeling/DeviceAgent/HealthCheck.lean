import DeviceAgent.HealthCheckReport
import DeviceAgent.Foundations.Transition

/-!
# Watching the Monitoring Post

`HealthCheck` notes a changed status in `nLastStatus` and pushes the packet.
`Push` refuses a number that is already queued, and then the change is neither
queued nor ever seen again.  The changes survive exactly as long as no status
still waiting has the number of the new one.
-/

namespace DeviceAgent

structure Monitor where
  reporter : Reporter
  nLastStatus : BitVec 32
  /-- The status packets in which a change was seen. -/
  seen : List Packet
  deriving DecidableEq, Repr

namespace Monitor

/-- The answer of the device, read into the packet the caller passes. -/
def statusFrom (status : Packet) (dev : List Byte) : Packet :=
  (status.receiveFrameFrom (dev.map ReadResult.byte ++ [ReadResult.zero])).packet

def healthCheck (timeForAction : Bool) (status : Packet) (dev : List Byte) (s : Monitor) :
    Monitor :=
  if !timeForAction then s
  else
    let status := statusFrom status dev
    if status.isValidStatus then
      let nNewStatus := status.getStatus
      if nNewStatus ≠ s.nLastStatus then
        { s with
          nLastStatus := nNewStatus
          reporter := { s.reporter with
            statusQueue := DataPacketQueue.push s.reporter.statusQueue status }
          seen := s.seen ++ [status] }
      else s
    else s

inductive Event
  | healthCheck (timeForAction : Bool) (status : Packet) (dev : List Byte)
  | report (i : ReportInput)
  /-- `HealthCheckReport` is called again. -/
  | call (port : TCPPort) (residue : List Byte)
  /-- Another thread sets `bExtCommunicationError`. -/
  | setExt (b : Bool)

def start (queue : List Packet) (nLastStatus : BitVec 32) (bExt : Bool) : Monitor :=
  ⟨⟨.returned, 0, ⟨[], []⟩, queue, ⟨-1, false⟩, bExt, []⟩, nLastStatus, []⟩

def step (s : Monitor) : Event → Option Monitor
  | .healthCheck timeForAction status dev => some (s.healthCheck timeForAction status dev)
  | .report i => some { s with reporter := s.reporter.step i }
  | .call port residue =>
      if s.reporter.point = .returned then some { s with reporter := s.reporter.call port residue }
      else none
  | .setExt b => some { s with reporter := { s.reporter with bExtCommunicationError := b } }

/-- The statuses popped and queued, oldest first. -/
def reported (s : Monitor) : List Packet :=
  s.reporter.popped.map Prod.fst ++ s.reporter.statusQueue

/-- Every change seen has been reported or is queued, and the latest is the one
in `nLastStatus`. -/
structure Complete (queue : List Packet) (s : Monitor) : Prop where
  kept : s.reported = queue ++ s.seen
  latest : s.seen ≠ [] → ∃ p, s.reported.getLast? = some p ∧ p.getStatus = s.nLastStatus
  onAck : ∀ entry ∈ s.reporter.popped, entry.2.isAckNo entry.1.getDataNo = true

/-- The check sees a valid status that differs from the last one. -/
def SeesChange (s : Monitor) (timeForAction : Bool) (status : Packet) : Prop :=
  timeForAction = true ∧ status.isValidStatus = true ∧ status.getStatus ≠ s.nLastStatus

instance (s : Monitor) (timeForAction : Bool) (status : Packet) :
    Decidable (s.SeesChange timeForAction status) := inferInstanceAs (Decidable (_ ∧ _ ∧ _))

/-- A change is seen only when no queued status has the same number. -/
def NumberFree (s : Monitor) : Event → Prop
  | .healthCheck timeForAction status dev =>
      s.SeesChange timeForAction (statusFrom status dev) →
        ∀ it ∈ s.reporter.statusQueue, it.getDataNo ≠ (statusFrom status dev).getDataNo
  | _ => True

instance (s : Monitor) : ∀ e, Decidable (s.NumberFree e)
  | .healthCheck _ _ _ => inferInstanceAs (Decidable (_ → ∀ it ∈ s.reporter.statusQueue, _ ≠ _))
  | .report _ => isTrue trivial
  | .call _ _ => isTrue trivial
  | .setExt _ => isTrue trivial

theorem healthCheck_of_change {s : Monitor} {timeForAction : Bool} {status : Packet}
    {dev : List Byte} (h : s.SeesChange timeForAction (statusFrom status dev)) :
    s.healthCheck timeForAction status dev =
      { s with
        nLastStatus := (statusFrom status dev).getStatus
        reporter := { s.reporter with
          statusQueue := DataPacketQueue.push s.reporter.statusQueue (statusFrom status dev) }
        seen := s.seen ++ [statusFrom status dev] } := by
  obtain ⟨htime, hvalid, hnew⟩ := h
  simp [healthCheck, htime, hvalid, hnew]

theorem healthCheck_of_no_change {s : Monitor} {timeForAction : Bool} {status : Packet}
    {dev : List Byte} (h : ¬ s.SeesChange timeForAction (statusFrom status dev)) :
    s.healthCheck timeForAction status dev = s := by
  unfold healthCheck
  split
  · rfl
  · rename_i htime
    dsimp only
    split
    · rename_i hvalid
      split
      · rename_i hnew
        exact absurd ⟨by simpa using htime, hvalid, hnew⟩ h
      · rfl
    · rfl

theorem Complete.change {queue : List Packet} {s : Monitor} (h : Complete queue s)
    {status : Packet} (hvalid : status.isValidStatus = true)
    (hfree : ∀ it ∈ s.reporter.statusQueue, it.getDataNo ≠ status.getDataNo) :
    Complete queue { s with
      nLastStatus := status.getStatus
      reporter := { s.reporter with
        statusQueue := DataPacketQueue.push s.reporter.statusQueue status }
      seen := s.seen ++ [status] } := by
  have hsize : status.getSize ≠ 0 := by
    intro hzero
    simp [Packet.isValidStatus, hzero] at hvalid
  rw [DataPacketQueue.push_of_fresh hsize hfree]
  have hreported : s.reporter.popped.map Prod.fst ++ (s.reporter.statusQueue ++ [status]) =
      s.reported ++ [status] := (List.append_assoc _ _ _).symm
  refine ⟨?_, fun _ ↦ ⟨status, ?_, rfl⟩, h.onAck⟩
  · change s.reporter.popped.map Prod.fst ++ (s.reporter.statusQueue ++ [status]) = _
    rw [hreported, h.kept, List.append_assoc]
  · change (s.reporter.popped.map Prod.fst ++ (s.reporter.statusQueue ++ [status])).getLast? = _
    rw [hreported, List.getLast?_concat]

theorem Complete.not_change {queue : List Packet} {s : Monitor} (h : Complete queue s)
    {status : Packet} (hknown : ∃ it ∈ s.reporter.statusQueue, it.getDataNo = status.getDataNo) :
    ¬ Complete queue { s with
      nLastStatus := status.getStatus
      reporter := { s.reporter with
        statusQueue := DataPacketQueue.push s.reporter.statusQueue status }
      seen := s.seen ++ [status] } := by
  rw [DataPacketQueue.push_of_known hknown]
  intro hafter
  have hlength := congrArg List.length (h.kept.symm.trans hafter.kept)
  simp at hlength

/-- A step of the report moves statuses from the queue to the log of those
popped, each for a matching acknowledgement. -/
theorem Complete.report {queue : List Packet} {s : Monitor} (h : Complete queue s)
    (hserves : s.reporter.Serves) (i : ReportInput) :
    Complete queue { s with reporter := s.reporter.step i } := by
  have hsame : ∀ {reporter : Reporter}, reporter.popped = s.reporter.popped →
      reporter.statusQueue = s.reporter.statusQueue →
      Complete queue { s with reporter := reporter } := by
    intro reporter hpopped hqueue
    have hreported : reported { s with reporter := reporter } = s.reported := by
      simp only [reported, hpopped, hqueue]
    refine ⟨?_, ?_, fun entry hentry ↦ h.onAck entry (hpopped ▸ hentry)⟩
    · rw [hreported]
      exact h.kept
    · rw [hreported]
      exact h.latest
  have hmoves := s.reporter.step_moves i
  generalize s.reporter.step i = reporter at hmoves
  cases hmoves with
  | finish => exact hsame rfl rfl
  | take => exact hsame rfl rfl
  | sent => exact hsame rfl rfl
  | failed => exact hsame rfl rfl
  | answered => exact hsame rfl rfl
  | accepted status hpoint hack =>
      obtain ⟨rest, hqueue⟩ := List.head?_eq_some_iff.mp
        (hserves status (by simp [hpoint, Reporter.statusOf]))
      have hreported : reported { s with reporter := { s.reporter with
          point := .loop, statusQueue := s.reporter.statusQueue.tail, retry := 0
          popped := s.reporter.popped ++ [(status, s.reporter.ack)] } } = s.reported := by
        simp [reported, hqueue]
      refine ⟨?_, ?_, fun entry hentry ↦ ?_⟩
      · rw [hreported]
        exact h.kept
      · rw [hreported]
        exact h.latest
      · rcases List.mem_append.mp hentry with hold | hnew
        · exact h.onAck entry hold
        · rw [List.mem_singleton.mp hnew]
          exact hack
  | exhausted => exact hsame rfl rfl
  | again => exact hsame rfl rfl
  | idle => exact hsame rfl rfl

theorem complete_step_iff {queue : List Packet} {s s' : Monitor} {e : Event}
    (h : Complete queue s) (hserves : s.reporter.Serves) (hstep : s.step e = some s') :
    Complete queue s' ↔ s.NumberFree e := by
  cases e with
  | healthCheck timeForAction status dev =>
      obtain rfl := Option.some.inj hstep
      by_cases hchange : s.SeesChange timeForAction (statusFrom status dev)
      · rw [healthCheck_of_change hchange]
        constructor
        · intro hafter _ it hit hsame
          exact h.not_change ⟨it, hit, hsame⟩ hafter
        · intro hfree
          exact h.change hchange.2.1 (hfree hchange)
      · rw [healthCheck_of_no_change hchange]
        exact ⟨fun _ hsees ↦ absurd hsees hchange, fun _ ↦ h⟩
  | report i =>
      obtain rfl := Option.some.inj hstep
      exact iff_of_true (h.report hserves i) trivial
  | call port residue =>
      simp only [step] at hstep
      split at hstep
      · obtain rfl := Option.some.inj hstep
        exact iff_of_true ⟨h.kept, h.latest, h.onAck⟩ trivial
      · cases hstep
  | setExt b =>
      obtain rfl := Option.some.inj hstep
      exact iff_of_true ⟨h.kept, h.latest, h.onAck⟩ trivial

theorem serves_step {s s' : Monitor} {e : Event} (hserves : s.reporter.Serves)
    (hstep : s.step e = some s') : s'.reporter.Serves := by
  cases e with
  | healthCheck timeForAction status dev =>
      obtain rfl := Option.some.inj hstep
      by_cases hchange : s.SeesChange timeForAction (statusFrom status dev)
      · rw [healthCheck_of_change hchange]
        intro status' hstatus
        have hhead := hserves status' hstatus
        rcases DataPacketQueue.push_cases s.reporter.statusQueue (statusFrom status dev)
          with heq | ⟨heq, -, -⟩
        · simpa [heq] using hhead
        · simp [heq, List.head?_append, hhead]
      · rw [healthCheck_of_no_change hchange]
        exact hserves
  | report i =>
      obtain rfl := Option.some.inj hstep
      exact hserves.step
  | call port residue =>
      simp only [step] at hstep
      split at hstep
      · obtain rfl := Option.some.inj hstep
        intro status hstatus
        simp only [Reporter.call] at hstatus
        split at hstatus <;> cases hstatus
      · cases hstep
  | setExt b =>
      obtain rfl := Option.some.inj hstep
      exact hserves

/-- In every run whose checks see changes only under free numbers all changes
are kept, and the first check that does otherwise loses one. -/
theorem changes_kept (queue : List Packet) (nLastStatus : BitVec 32) (bExt : Bool) :
    (∀ s, Transition.Reaches step NumberFree (start queue nLastStatus bExt) s →
      Complete queue s) ∧
    ∀ s e s', Transition.Reaches step NumberFree (start queue nLastStatus bExt) s →
      s.step e = some s' → (Complete queue s' ↔ s.NumberFree e) := by
  have hinv : ∀ s, Transition.Reaches step NumberFree (start queue nLastStatus bExt) s →
      Complete queue s ∧ s.reporter.Serves := by
    intro s hreach
    refine hreach.invariant (fun s ↦ Complete queue s ∧ s.reporter.Serves) ?_ ?_
    · rintro s e s' ⟨hcomplete, hserves⟩ hfree hstep
      exact ⟨(complete_step_iff hcomplete hserves hstep).mpr hfree, serves_step hserves hstep⟩
    · refine ⟨⟨?_, ?_, ?_⟩, ?_⟩ <;> simp [start, reported, Reporter.Serves, Reporter.statusOf]
  refine ⟨fun s hreach ↦ (hinv s hreach).1, fun s e s' hreach hstep ↦ ?_⟩
  exact complete_step_iff (hinv s hreach).1 (hinv s hreach).2 hstep

/-- The device answers with this status frame. -/
def checkOf (no status : Byte) : Event :=
  .healthCheck true ⟨[], []⟩ (DataPacketQueue.sampleStatus no status).strCache

theorem changes_kept_two_numbers :
    ∃ s, Transition.run step [checkOf 1 5, checkOf 2 7] (start [] 0 false) = some s ∧
      s.nLastStatus = 7 ∧ s.seen.length = 2 ∧ Complete [] s := by
  have hmeets : Transition.Meets step NumberFree [checkOf 1 5, checkOf 2 7] (start [] 0 false) := by
    decide +kernel
  obtain ⟨s, hrun, hlast, hseen⟩ := Transition.exists_run step [checkOf 1 5, checkOf 2 7]
    (start [] 0 false) (fun s ↦ s.nLastStatus = 7 ∧ s.seen.length = 2) (by decide +kernel)
  exact ⟨s, hrun, hlast, hseen, (changes_kept [] 0 false).1 s (.of_run hmeets hrun)⟩

/-- The status changes to 5 and then to 7 under the same number: the second
change is noted in `nLastStatus` and in no queue. -/
theorem change_lost :
    ∃ s, Transition.run step [checkOf 1 5, checkOf 1 7] (start [] 0 false) = some s ∧
      s.nLastStatus = 7 ∧ s.seen.map Packet.getStatus = [5, 7] ∧
      s.reported.map Packet.getStatus = [5] ∧ ¬ Complete [] s := by
  obtain ⟨s, hrun, hlast, hseen, hreported⟩ := Transition.exists_run step
    [checkOf 1 5, checkOf 1 7] (start [] 0 false)
    (fun s ↦ s.nLastStatus = 7 ∧ s.seen.map Packet.getStatus = [5, 7] ∧
      s.reported.map Packet.getStatus = [5])
    (by decide +kernel)
  refine ⟨s, hrun, hlast, hseen, hreported, fun hcomplete ↦ ?_⟩
  have hkept := congrArg (List.map Packet.getStatus) hcomplete.kept
  rw [hreported, List.nil_append, hseen] at hkept
  exact absurd hkept (by decide)

end Monitor

end DeviceAgent
