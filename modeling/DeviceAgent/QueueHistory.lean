import DeviceAgent.CurrentData
import DeviceAgent.PacketQueue
import DeviceAgent.Foundations.Transition

/-!
# The queue over whole runs

The queue is driven by pushes, pops and loads in any order.  A history keeps,
next to the queue, what was loaded, accepted and popped since a file was last
loaded; order, uniqueness and completeness are carried through together.

A number stands for a measurement only as long as no two packets with one
number differ.  `GetDataNo` reads it from frames of every command, and it wraps.
-/

namespace DeviceAgent

open CommunicationCommand

namespace DataPacketQueue

/-- A push is refused exactly when the packet is empty or its number is queued
at that moment. -/
theorem push_eq_self_iff (queue : List Packet) (data : Packet) :
    push queue data = queue ↔
      data.getSize = 0 ∨ ∃ it ∈ queue, it.getDataNo = data.getDataNo := by
  constructor
  · intro hsame
    by_contra hnot
    push Not at hnot
    have hgrown := push_of_fresh hnot.1 hnot.2
    rw [hsame] at hgrown
    exact List.cons_ne_nil data [] (List.self_eq_append_right.mp hgrown)
  · rintro (hsize | hknown)
    · simp [push, hsize]
    · exact push_of_known hknown

inductive Operation
  | push (data : Packet)
  | pop
  | load (file : Option (List Byte))

/-- A queue, with what has happened to it since the last file was loaded. -/
structure History where
  queue : List Packet
  loaded : List Packet
  accepted : List Packet
  popped : List Packet
  deriving DecidableEq

namespace History

def empty : History := ⟨[], [], [], []⟩

/-- `Pop` is called on a non-empty queue only.  A `Load` that finds no file
returns before it clears the queue, so it opens no new account. -/
def step (h : History) : Operation → Option History
  | .push data =>
      let queue := DataPacketQueue.push h.queue data
      some { h with
        queue := queue
        accepted := if queue = h.queue then h.accepted else h.accepted ++ [data] }
  | .pop =>
      match h.queue with
      | [] => none
      | front :: _ => some { h with queue := pop h.queue, popped := h.popped ++ [front] }
  | .load none => some { h with queue := load none h.queue }
  | .load (some bytes) =>
      let queue := load (some bytes) h.queue
      some ⟨queue, queue, [], []⟩

/-- What holds of a history in every run. -/
structure Sound (h : History) : Prop where
  nonempty : ∀ p ∈ h.queue, p.getSize ≠ 0
  distinct : (h.queue.map Packet.getDataNo).Nodup
  fifo : h.popped ++ h.queue = h.loaded ++ h.accepted

theorem sound_empty : Sound empty := ⟨by simp [empty], by simp [empty], rfl⟩

theorem Sound.push {h : History} (hsound : Sound h) (data : Packet) :
    ∃ h', h.step (.push data) = some h' ∧ Sound h' := by
  refine ⟨_, rfl, ?_⟩
  rcases push_cases h.queue data with heq | ⟨heq, hsize, -⟩
  · -- refused: nothing moves
    simp only [heq, if_true]
    exact hsound
  · have hgrown : ¬ h.queue ++ [data] = h.queue := by simp
    simp only [heq, if_neg hgrown]
    refine ⟨?_, ?_, ?_⟩
    · intro p hp
      rcases List.mem_append.mp hp with hold | hnew
      · exact hsound.nonempty p hold
      · obtain rfl := List.mem_singleton.mp hnew
        exact hsize
    · have hnodup := push_nodup data hsound.distinct
      rwa [heq] at hnodup
    · change h.popped ++ (h.queue ++ [data]) = h.loaded ++ (h.accepted ++ [data])
      rw [← List.append_assoc, ← List.append_assoc, hsound.fifo]

theorem Sound.pop {h h' : History} (hsound : Sound h) (hstep : h.step .pop = some h') :
    Sound h' := by
  obtain ⟨hnonempty, hdistinct, hfifo⟩ := hsound
  obtain ⟨queue, loaded, accepted, popped⟩ := h
  cases queue with
  | nil => cases hstep
  | cons front rest =>
      obtain rfl := Option.some.inj hstep
      refine ⟨?_, ?_, ?_⟩
      · intro p hp
        exact hnonempty p (List.mem_cons_of_mem front hp)
      · exact (List.nodup_cons.mp hdistinct).2
      · change (popped ++ [front]) ++ rest = loaded ++ accepted
        rw [← hfifo, List.append_assoc]
        rfl

theorem sound_load (bytes : List Byte) (queue : List Packet) :
    Sound ⟨load (some bytes) queue, load (some bytes) queue, [], []⟩ := by
  -- `Load` clears the queue first, so the old one has no influence
  have hwf : (∀ p ∈ load (some bytes) queue, Storable p) ∧
      ((load (some bytes) queue).map Packet.getDataNo).Nodup := load_wellFormed (some bytes)
  refine ⟨?_, hwf.2, by simp⟩
  intro p hp
  have hlen := length_ge_of_isFrameCRCOK (hwf.1 p hp).1
  rw [Packet.getSize]
  omega

theorem Sound.step {h h' : History} (hsound : Sound h) (o : Operation)
    (hstep : h.step o = some h') : Sound h' := by
  cases o with
  | push data =>
      obtain ⟨next, hnext, hkept⟩ := hsound.push data
      rw [hnext] at hstep
      exact Option.some.inj hstep ▸ hkept
  | pop => exact hsound.pop hstep
  | load file =>
      cases file with
      | none => exact Option.some.inj hstep ▸ hsound
      | some bytes => exact Option.some.inj hstep ▸ sound_load bytes h.queue

theorem sound_of_run {operations : List Operation} {h : History}
    (hrun : Transition.run step operations empty = some h) : Sound h := by
  have hreach : Transition.Reaches step (fun _ _ ↦ True) empty h :=
    .of_run (Transition.meets_true operations empty) hrun
  refine hreach.invariant Sound ?_ sound_empty
  intro s o s' hsound _ hstep
  exact hsound.step o hstep

end History

/-- The representation invariant: after any sequence of operations the queued
packets are non-empty with pairwise distinct numbers, what was popped and what
remains is what was loaded and then accepted, and a push is refused exactly for
an empty packet or a queued number. -/
theorem history_invariant (operations : List Operation) (h : History)
    (hrun : Transition.run History.step operations History.empty = some h) :
    (∀ p ∈ h.queue, p.getSize ≠ 0) ∧
      h.queue.Pairwise (fun p q ↦ p.getDataNo ≠ q.getDataNo) ∧
      h.popped ++ h.queue = h.loaded ++ h.accepted ∧
      ∀ data, (push h.queue data = h.queue ↔
          data.getSize = 0 ∨ ∃ it ∈ h.queue, it.getDataNo = data.getDataNo) ∧
        (push h.queue data ≠ h.queue → push h.queue data = h.queue ++ [data]) := by
  have hsound := History.sound_of_run hrun
  refine ⟨hsound.nonempty, List.pairwise_map.mp hsound.distinct, hsound.fifo, fun data ↦ ?_⟩
  refine ⟨push_eq_self_iff h.queue data, fun hgrown ↦ ?_⟩
  rcases push_cases h.queue data with heq | ⟨heq, -, -⟩
  · exact absurd heq hgrown
  · exact heq

/-- A file with two frames is loaded, one is popped, and of two pushes the
second repeats a number that is still queued. -/
theorem history_invariant_example :
    ∃ h, Transition.run History.step
        [.load (some (save [sampleFrame 1, sampleFrame 2])), .pop, .push (sampleFrame 3),
          .push (sampleStatus 2 0)] History.empty = some h ∧
      h.queue.map Packet.getDataNo = [2#16, 3#16] ∧
      h.popped ++ h.queue = h.loaded ++ h.accepted := by
  obtain ⟨h, hrun, hnos⟩ := Transition.exists_run History.step
    [.load (some (save [sampleFrame 1, sampleFrame 2])), .pop, .push (sampleFrame 3),
      .push (sampleStatus 2 0)] History.empty
    (fun h ↦ h.queue.map Packet.getDataNo = [2#16, 3#16]) (by decide)
  exact ⟨h, hrun, hnos, (history_invariant _ h hrun).2.2.1⟩

/-! ## Measurements that are refused -/

/-- Whether what is pushed is a frame, of any command. -/
def Operation.frame : Operation → Bool
  | .push data => isFrameCRCOK data.strCache
  | _ => true

/-- A measurement that is pushed stands in the queue afterwards, byte for byte. -/
def History.Keeps (h : History) : Operation → Prop
  | .push data => data.frameCommandType = dataRequest →
      ∃ it ∈ DataPacketQueue.push h.queue data, it.strCache = data.strCache
  | _ => True

/-- A queued packet with the number of a measurement that is pushed is that
measurement. -/
def History.NoClash (h : History) : Operation → Prop
  | .push data => data.frameCommandType = dataRequest →
      ∀ it ∈ h.queue, it.getDataNo = data.getDataNo → it.strCache = data.strCache
  | _ => True

instance (h : History) : ∀ o, Decidable (h.NoClash o)
  | .push data => inferInstanceAs (Decidable (data.frameCommandType = dataRequest →
      ∀ it ∈ h.queue, it.getDataNo = data.getDataNo → it.strCache = data.strCache))
  | .pop => isTrue trivial
  | .load _ => isTrue trivial

/-- What one pass of `doReadData` does to the queue. -/
def doReadData (machine : Byte) (c : Clocks) (beyond : List Byte) (line : List (Option Byte))
    (timer : Timeval) (bIn : Bool) : List Operation :=
  let data := ((CurrentData.call beyond line timer bIn).requestCurrentData machine c).data
  if data.getSize ≠ 0 then [.push data] else []

theorem doReadData_frame (machine : Byte) (c : Clocks) (beyond : List Byte)
    (line : List (Option Byte)) (timer : Timeval) (bIn : Bool) :
    (doReadData machine c beyond line timer bIn).all Operation.frame = true := by
  simp only [doReadData]
  split
  · rename_i hsize
    rcases CurrentData.requestCurrentData_frame machine c beyond line timer bIn with hnil | hok
    · exact absurd (List.length_eq_zero_iff.mpr hnil) hsize
    · simpa [Operation.frame] using hok
  · rfl

theorem push_keeps_iff {queue : List Packet} (hnos : (queue.map Packet.getDataNo).Nodup)
    {data : Packet} (hok : isFrameCRCOK data.strCache = true) :
    (∃ it ∈ push queue data, it.strCache = data.strCache) ↔
      ∀ it ∈ queue, it.getDataNo = data.getDataNo → it.strCache = data.strCache := by
  have hlong := length_ge_of_isFrameCRCOK hok
  have hsize : data.getSize ≠ 0 := by
    rw [Packet.getSize]
    omega
  by_cases hknown : ∃ it ∈ queue, it.getDataNo = data.getDataNo
  · rw [push_of_known hknown]
    constructor
    · rintro ⟨same, hsame, hbytes⟩ it hit hno
      -- the number lies within the bytes, so `it` and `same` share it
      have hno' := Packet.getDataNo_congr hbytes hlong
      have heq := List.inj_on_of_nodup_map hnos hit hsame (hno.trans hno'.symm)
      rw [heq]
      exact hbytes
    · intro hclash
      obtain ⟨it, hit, hno⟩ := hknown
      exact ⟨it, hit, hclash it hit hno⟩
  · push Not at hknown
    rw [push_of_fresh hsize hknown]
    constructor
    · intro _ it hit hno
      exact absurd hno (hknown it hit)
    · intro _
      exact ⟨data, by simp, rfl⟩

/-- In a run of pushes, pops and loads every measurement that is pushed is kept
exactly if, at each such push, no other packet with its number is queued. -/
theorem measurements_kept_iff (operations : List Operation)
    (hframes : operations.all Operation.frame = true) :
    Transition.Meets History.step History.Keeps operations History.empty ↔
      Transition.Meets History.step History.NoClash operations History.empty := by
  refine Transition.meets_congr History.Sound ?_ ?_ (List.all_eq_true.mp hframes)
    History.sound_empty
  · intro h o h' hsound hstep
    exact hsound.step o hstep
  · intro h o hsound hframe
    cases o with
    | push data => exact imp_congr_right fun _ ↦ push_keeps_iff hsound.distinct hframe
    | pop => exact Iff.rfl
    | load file => exact Iff.rfl

theorem measurements_kept_iff_twice :
    Transition.Meets History.step History.Keeps
      [.push (sampleFrame 1), .push (sampleFrame 1), .push (sampleFrame 2)] History.empty := by
  rw [measurements_kept_iff _ (by decide)]
  decide

/-- The condition that was returned as a measurement is queued.  Its bytes at the
place of a data number read 560, and the measurement with that number is lost. -/
theorem measurement_refused_for_condition :
    let late : Packet := ⟨CurrentData.conditionAnswer, []⟩
    let data := (Packet.mk [] []).buildPacket
      [0x72#8, 0x61#8, 0x00#8, 0x02#8, 0x02#8, 0x30#8] 0x01#8
    isFrameCRCOK data.strCache = true ∧ data.frameCommandType = dataRequest ∧
      push [] late = [late] ∧ late.frameCommandType = getCondition ∧
      push [late] data = [late] ∧ late.strCache ≠ data.strCache := by
  decide +kernel

end DataPacketQueue

end DeviceAgent
