import DeviceAgent.PacketQueue
import DeviceAgent.Foundations.Transition

/-!
# Restarting with pending work

The reader pushes a measurement and saves the queue, the sender pops what was
acknowledged, and the status queue is fed and drained meanwhile.  `SaveData`
writes the file only when the queue is not empty, and no part of the program
calls `SaveStatus`.  So the file of measurements is stale once everything has
been delivered, and the file of statuses never changes.
-/

namespace DeviceAgent

open DataPacketQueue

/-- The two files in the working directory, `none` where there is no file. -/
structure Disk where
  current : Option (List Byte)
  status : Option (List Byte)
  deriving DecidableEq, Repr

structure Program where
  dataQueue : List Packet
  statusQueue : List Packet
  disk : Disk
  /-- The reader is between `Push` and `SaveData`. -/
  unsaved : Bool
  /-- What the measurement file holds: the queue of the last `SaveData` that
  wrote, or what was loaded at the start. -/
  saved : List Packet
  deriving DecidableEq, Repr

namespace Program

/-- `LoadStatus` and `dataQueue.Load` on empty queues. -/
def start (disk : Disk) : Program where
  dataQueue := load disk.current []
  statusQueue := load disk.status []
  disk := disk
  unsaved := false
  saved := load disk.current []

def saveData (s : Program) : Program :=
  if s.dataQueue.length ≠ 0 then
    { s with
      disk := { s.disk with current := some (save s.dataQueue) }
      saved := s.dataQueue }
  else s

inductive Action
  | readerPush (data : Packet)
  | readerSave
  | senderPop
  | healthPush (status : Packet)
  | reportPop

def step (s : Program) : Action → Option Program
  | .readerPush data =>
      if s.unsaved then none
      else if data.getSize = 0 then some s
      else some { s with dataQueue := push s.dataQueue data, unsaved := true }
  | .readerSave => if s.unsaved then some { s.saveData with unsaved := false } else none
  | .senderPop =>
      if s.dataQueue = [] then none else some { s with dataQueue := pop s.dataQueue }
  | .healthPush status =>
      if status.isValidStatus then some { s with statusQueue := push s.statusQueue status }
      else none
  | .reportPop =>
      if s.statusQueue = [] then none else some { s with statusQueue := pop s.statusQueue }

/-- `main_work` on the shutdown event, and the next start from what it left. -/
def restart (s : Program) : Program := start s.saveData.disk

/-- The next start finds both queues as they were. -/
def Preserved (s : Program) : Prop :=
  s.restart.dataQueue.map Packet.strCache = s.dataQueue.map Packet.strCache ∧
    s.restart.statusQueue.map Packet.strCache = s.statusQueue.map Packet.strCache

/-- Every packet put into a queue fits into its file. -/
def PushesStorable (_ : Program) : Action → Prop
  | .readerPush data => data.getSize = 0 ∨ Storable data
  | .healthPush status => Storable status
  | _ => True

instance (s : Program) : ∀ a, Decidable (s.PushesStorable a)
  | .readerPush _ => inferInstanceAs (Decidable (_ ∨ _))
  | .healthPush status => inferInstanceAs (Decidable (Storable status))
  | .readerSave => isTrue trivial
  | .senderPop => isTrue trivial
  | .reportPop => isTrue trivial

/-! ## File and memory along a run -/

structure Consistent (disk : Disk) (s : Program) : Prop where
  storable : ∀ p ∈ s.dataQueue, Storable p
  numbers : (s.dataQueue.map Packet.getDataNo).Nodup
  file : (load s.disk.current []).map Packet.strCache = s.saved.map Packet.strCache
  untouched : s.disk.status = disk.status

theorem consistent_start (disk : Disk) : Consistent disk (start disk) where
  storable := (load_wellFormed disk.current).1
  numbers := (load_wellFormed disk.current).2
  file := rfl
  untouched := rfl

theorem saveData_of_empty {s : Program} (h : s.dataQueue = []) : s.saveData = s := by
  simp [saveData, h]

theorem saveData_of_nonempty {s : Program} (h : s.dataQueue ≠ []) :
    s.saveData = { s with
      disk := { s.disk with current := some (save s.dataQueue) }
      saved := s.dataQueue } := by
  simp [saveData, h]

theorem load_save_contents {q : List Packet} (hq : ∀ p ∈ q, Storable p)
    (hnos : (q.map Packet.getDataNo).Nodup) :
    (load (some (save q)) []).map Packet.strCache = q.map Packet.strCache := by
  rw [load_save hq hnos, List.map_map]
  exact List.map_congr_left fun p _ ↦ reloaded_strCache p

theorem Consistent.saveData {disk : Disk} {s : Program} (h : Consistent disk s) :
    Consistent disk s.saveData := by
  by_cases hempty : s.dataQueue = []
  · rw [saveData_of_empty hempty]
    exact h
  · rw [saveData_of_nonempty hempty]
    exact ⟨h.storable, h.numbers, load_save_contents h.storable h.numbers, h.untouched⟩

theorem Consistent.push {disk : Disk} {s : Program} (h : Consistent disk s) {data : Packet}
    (hdata : Storable data) (unsaved : Bool) :
    Consistent disk { s with dataQueue := push s.dataQueue data, unsaved := unsaved } where
  storable := by
    intro p hp
    rcases mem_of_mem_push hp with hp | rfl
    · exact h.storable p hp
    · exact hdata
  numbers := push_nodup data h.numbers
  file := h.file
  untouched := h.untouched

theorem Consistent.pop {disk : Disk} {s : Program} (h : Consistent disk s) :
    Consistent disk { s with dataQueue := pop s.dataQueue } where
  storable := fun p hp ↦ h.storable p (List.mem_of_mem_tail hp)
  numbers := h.numbers.sublist ((List.tail_sublist _).map _)
  file := h.file
  untouched := h.untouched

theorem consistent_step {disk : Disk} (s : Program) (a : Action) (s' : Program)
    (h : Consistent disk s) (hpush : PushesStorable s a) (hstep : s.step a = some s') :
    Consistent disk s' := by
  cases a with
  | readerPush data =>
      simp only [step] at hstep
      split at hstep
      · cases hstep
      · split at hstep
        · obtain rfl := Option.some.inj hstep
          exact h
        · rename_i hsize
          obtain rfl := Option.some.inj hstep
          exact h.push (hpush.resolve_left hsize) true
  | readerSave =>
      simp only [step] at hstep
      split at hstep
      · obtain rfl := Option.some.inj hstep
        have hsaved := h.saveData
        exact ⟨hsaved.storable, hsaved.numbers, hsaved.file, hsaved.untouched⟩
      · cases hstep
  | senderPop =>
      simp only [step] at hstep
      split at hstep
      · cases hstep
      · obtain rfl := Option.some.inj hstep
        exact h.pop
  | healthPush status =>
      simp only [step] at hstep
      split at hstep
      · obtain rfl := Option.some.inj hstep
        exact ⟨h.storable, h.numbers, h.file, h.untouched⟩
      · cases hstep
  | reportPop =>
      simp only [step] at hstep
      split at hstep
      · cases hstep
      · obtain rfl := Option.some.inj hstep
        exact ⟨h.storable, h.numbers, h.file, h.untouched⟩

/-! ## What a restart restores -/

theorem restart_dataQueue {disk : Disk} {s : Program} (h : Consistent disk s) :
    s.restart.dataQueue.map Packet.strCache =
      if s.dataQueue = [] then s.saved.map Packet.strCache
      else s.dataQueue.map Packet.strCache := by
  by_cases hempty : s.dataQueue = []
  · rw [if_pos hempty, restart, saveData_of_empty hempty]
    exact h.file
  · rw [if_neg hempty, restart, saveData_of_nonempty hempty]
    exact load_save_contents h.storable h.numbers

theorem restart_statusQueue {disk : Disk} {s : Program} (h : Consistent disk s) :
    s.restart.statusQueue = (start disk).statusQueue := by
  have hstatus : s.saveData.disk.status = disk.status := h.saveData.untouched
  rw [restart, start, start, hstatus]

/-- A restart preserves the queues exactly when the measurement queue is not
empty or nothing was ever saved or loaded, and the status queue holds what it
held at the start. -/
theorem restart_preserves_iff (disk : Disk) (s : Program)
    (h : Transition.Reaches step PushesStorable (start disk) s) :
    s.Preserved ↔ (s.dataQueue ≠ [] ∨ s.saved = []) ∧
      s.statusQueue.map Packet.strCache = (start disk).statusQueue.map Packet.strCache := by
  have hcons : Consistent disk s :=
    h.invariant (Consistent disk) consistent_step (consistent_start disk)
  rw [Preserved, restart_dataQueue hcons, restart_statusQueue hcons]
  refine and_congr ?_ eq_comm
  by_cases hempty : s.dataQueue = []
  · simp [hempty]
  · simp [hempty]

theorem restart_preserves_waiting :
    ∃ s, Transition.run step [.readerPush (sampleFrame 1), .readerSave] (start ⟨none, none⟩) =
        some s ∧ s.Preserved := by
  have hmeets : Transition.Meets step PushesStorable
      [.readerPush (sampleFrame 1), .readerSave] (start ⟨none, none⟩) := by
    decide
  obtain ⟨s, hrun, hdata, hstatus⟩ := Transition.exists_run step
    [.readerPush (sampleFrame 1), .readerSave] (start ⟨none, none⟩)
    (fun s ↦ s.dataQueue ≠ [] ∧ s.statusQueue = []) (by decide)
  refine ⟨s, hrun, (restart_preserves_iff ⟨none, none⟩ s (.of_run hmeets hrun)).mpr ?_⟩
  exact ⟨Or.inl hdata, by rw [hstatus]; rfl⟩

/-- A delivered measurement comes back, and a status not yet reported is lost. -/
theorem restart_not_preserving :
    (∃ s, Transition.run step [.readerPush (sampleFrame 1), .readerSave, .senderPop]
        (start ⟨none, none⟩) = some s ∧
      s.dataQueue = [] ∧ s.restart.dataQueue.map Packet.strCache =
        [(sampleFrame 1).strCache] ∧ ¬ s.Preserved) ∧
    ∃ s, Transition.run step [.healthPush (sampleStatus 1 5)] (start ⟨none, none⟩) = some s ∧
      s.statusQueue = [sampleStatus 1 5] ∧ s.restart.statusQueue = [] ∧ ¬ s.Preserved := by
  constructor
  · obtain ⟨s, hrun, hempty, hback⟩ := Transition.exists_run step
      [.readerPush (sampleFrame 1), .readerSave, .senderPop] (start ⟨none, none⟩)
      (fun s ↦ s.dataQueue = [] ∧ s.restart.dataQueue.map Packet.strCache =
        [(sampleFrame 1).strCache])
      (by decide)
    refine ⟨s, hrun, hempty, hback, fun hpreserved ↦ ?_⟩
    rw [Preserved, hback, hempty] at hpreserved
    cases hpreserved.1
  · obtain ⟨s, hrun, hqueued, hlost⟩ := Transition.exists_run step
      [.healthPush (sampleStatus 1 5)] (start ⟨none, none⟩)
      (fun s ↦ s.statusQueue = [sampleStatus 1 5] ∧ s.restart.statusQueue = [])
      (by decide +kernel)
    refine ⟨s, hrun, hqueued, hlost, fun hpreserved ↦ ?_⟩
    rw [Preserved, hqueued, hlost] at hpreserved
    cases hpreserved.2

end Program

end DeviceAgent
