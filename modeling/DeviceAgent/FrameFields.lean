import DeviceAgent.HistoryTransfer
import DeviceAgent.ChannelNegotiation
import DeviceAgent.CurrentData

/-!
# Where the fields of a frame lie

The accessors cast the buffer to the struct they expect.  All the receiver
guarantees is nine bytes, of which the last four are the trailer, so an accessor
whose field lies further back reads the trailer, or what lies behind the frame.
-/

namespace DeviceAgent

open ReadResult

inductive Accessor
  | getDataNo
  | getInterval
  | getAssignedPort
  | getMPTime
  | getStatus
  | getStartNum
  | getEndNum
  | setStartNum
  deriving DecidableEq, Repr

namespace Accessor

/-- The value of a call, and the packet as the call leaves it. -/
def call (mktime : Tm → ℤ) (n : ℕ) (p : Packet) : Accessor → ℤ × Packet
  | getDataNo => (p.getDataNo.toNat, p)
  | getInterval => (p.getInterval, p)
  | getAssignedPort => (p.getAssignedPort.toNat, p)
  | getMPTime => (p.getMPTime mktime, p)
  | getStatus => (p.getStatus.toNat, p)
  | getStartNum => (p.getStartNum, p)
  | getEndNum => (p.getEndNum, p)
  | setStartNum => (0, p.setStartNum n)

/-- The offsets of the fields a call reads or writes.  The second letter of the
command is compared only if the first one is right, and the fields of the time are
read only behind both.  The line that `Dump` puts into the log is no field. -/
def touches (p : Packet) : Accessor → List ℕ
  | getDataNo => if p.getSize < 1 then [] else [7, 8]
  | getInterval => if p.getSize < 1 then [] else [7]
  | getAssignedPort => if p.getSize < 1 then [] else [5, 6]
  | getMPTime =>
      if p.getSize = 0 then []
      else if p.byteAt 3 ≠ (letters 'c' 'k').1 then [3]
      else if p.byteAt 4 ≠ (letters 'c' 'k').2 then [3, 4]
      else [3, 4, 7, 8, 9, 10, 11, 12, 13]
  | getStatus => if 0 < p.getSize then [15, 16, 17, 18] else []
  | getStartNum => [7, 8]
  | getEndNum => [9, 10]
  | setStartNum => [7, 8]

/-! ## The offsets are all there is to a call -/

section Touched

variable {p q : Packet} (mktime : Tm → ℤ) (n : ℕ)

theorem wordAt_congr {i : ℕ} (hfirst : p.byteAt i = q.byteAt i)
    (hsecond : p.byteAt (i + 1) = q.byteAt (i + 1)) : p.wordAt i = q.wordAt i := by
  rw [Packet.wordAt, Packet.wordAt, hfirst, hsecond]

theorem getMPTime_congr (hsize : p.getSize = q.getSize)
    (h : ∀ i ∈ getMPTime.touches p, p.byteAt i = q.byteAt i) :
    p.getMPTime mktime = q.getMPTime mktime := by
  by_cases hempty : p.getSize = 0
  · rw [Packet.getMPTime, Packet.getMPTime, ← hsize, if_pos hempty, if_pos hempty]
  · simp only [touches, hempty, if_false] at h
    rw [Packet.getMPTime, Packet.getMPTime, ← hsize, if_neg hempty, if_neg hempty]
    by_cases hfirst : p.byteAt 3 = (letters 'c' 'k').1
    · by_cases hsecond : p.byteAt 4 = (letters 'c' 'k').2
      · simp only [hfirst, hsecond, ne_eq, not_true_eq_false, if_false, List.mem_cons,
          List.not_mem_nil, or_false, forall_eq_or_imp, forall_eq] at h
        simp [Packet.cmdField, Packet.wordAt, hfirst, hsecond, ← h]
      · simp only [hfirst, hsecond, ne_eq, not_true_eq_false, not_false_eq_true, if_false, if_true,
          List.mem_cons, List.not_mem_nil, or_false, forall_eq_or_imp, forall_eq] at h
        have hp : p.cmdField ≠ letters 'c' 'k' := fun heq ↦ hsecond (congrArg Prod.snd heq)
        have hq : q.cmdField ≠ letters 'c' 'k' :=
          fun heq ↦ hsecond (h.2.trans (congrArg Prod.snd heq))
        rw [if_pos hp, if_pos hq]
    · simp only [hfirst, ne_eq, not_false_eq_true, if_true, List.mem_singleton, forall_eq] at h
      have hp : p.cmdField ≠ letters 'c' 'k' := fun heq ↦ hfirst (congrArg Prod.fst heq)
      have hq : q.cmdField ≠ letters 'c' 'k' :=
        fun heq ↦ hfirst (h.trans (congrArg Prod.fst heq))
      rw [if_pos hp, if_pos hq]

/-- What a call gives back depends on the bytes it touches. -/
theorem call_fst_congr (a : Accessor) (hsize : p.getSize = q.getSize)
    (h : ∀ i ∈ a.touches p, p.byteAt i = q.byteAt i) :
    (a.call mktime n p).1 = (a.call mktime n q).1 := by
  cases a with
  | getMPTime => exact getMPTime_congr mktime hsize h
  | getDataNo =>
      simp only [call, Packet.getDataNo, ← hsize]
      split
      · rfl
      · rename_i hlong
        simp only [touches, hlong, if_false] at h
        rw [wordAt_congr (h 7 (by simp)) (h 8 (by simp))]
  | getInterval =>
      simp only [call, Packet.getInterval, ← hsize]
      split
      · rfl
      · rename_i hlong
        simp only [touches, hlong, if_false] at h
        rw [h 7 (by simp)]
  | getAssignedPort =>
      simp only [call, Packet.getAssignedPort, ← hsize]
      split
      · rfl
      · rename_i hlong
        simp only [touches, hlong, if_false] at h
        rw [wordAt_congr (h 5 (by simp)) (h 6 (by simp))]
  | getStatus =>
      simp only [call, Packet.getStatus, ← hsize]
      split
      · rename_i hlong
        simp only [touches, hlong, if_true] at h
        rw [wordAt_congr (h 15 (by simp)) (h 16 (by simp)),
          wordAt_congr (h 17 (by simp)) (h 18 (by simp))]
      · rfl
  | getStartNum =>
      simp only [call, Packet.getStartNum, Packet.hostWordAt]
      rw [h 7 (by simp [touches]), h (7 + 1) (by simp [touches])]
  | getEndNum =>
      simp only [call, Packet.getEndNum, Packet.hostWordAt]
      rw [h 9 (by simp [touches]), h (9 + 1) (by simp [touches])]
  | setStartNum => rfl

/-- A call leaves the bytes it does not touch as they were. -/
theorem call_snd_byteAt (a : Accessor) {i : ℕ} (hi : i ∉ a.touches p) :
    (a.call mktime n p).2.byteAt i = p.byteAt i := by
  cases a with
  | setStartNum =>
      simp only [touches, List.mem_cons, List.not_mem_nil, or_false, not_or] at hi
      simp only [call, Packet.setStartNum, Packet.byteAt, Packet.storage,
        List.getD_eq_getElem?_getD, List.getElem?_append, List.length_set]
      rw [List.getElem?_set_ne (Ne.symm hi.2), List.getElem?_set_ne (Ne.symm hi.1)]
  | _ => rfl

end Touched

/-! ## The content of a frame -/

end Accessor

/-- Behind the head and in front of the trailer. -/
def Packet.InContent (p : Packet) (i : ℕ) : Prop := 3 ≤ i ∧ i + 4 < p.getSize

instance (p : Packet) (i : ℕ) : Decidable (p.InContent i) :=
  inferInstanceAs (Decidable (3 ≤ i ∧ i + 4 < p.getSize))

namespace Accessor

/-- The bytes a frame must have for the fields of a call to lie in its content. -/
def needs (p : Packet) : Accessor → ℕ
  | getDataNo => 13
  | getInterval => 12
  | getAssignedPort => 11
  | getMPTime => if p.cmdField = letters 'c' 'k' then 18 else 9
  | getStatus => 23
  | getStartNum => 13
  | getEndNum => 15
  | setStartNum => 13

/-- The field that lies furthest back decides. -/
theorem forall_inContent_iff {p : Packet} {offsets : List ℕ} (last : ℕ) (hlast : last ∈ offsets)
    (hrange : ∀ i ∈ offsets, 3 ≤ i ∧ i ≤ last) :
    (∀ i ∈ offsets, p.InContent i) ↔ last + 5 ≤ p.getSize := by
  constructor
  · intro h
    have hinside := (h last hlast).2
    omega
  · intro h i hi
    obtain ⟨hlow, hhigh⟩ := hrange i hi
    exact ⟨hlow, by omega⟩

/-- Without the command no field of the time is read, and the command is in every
frame. -/
theorem getMPTime_inContent_iff {p : Packet} (hnine : 9 ≤ p.getSize) :
    (∀ i ∈ getMPTime.touches p, p.InContent i) ↔ getMPTime.needs p ≤ p.getSize := by
  have hsome : p.getSize ≠ 0 := by omega
  rw [touches, if_neg hsome, needs]
  by_cases hfirst : p.byteAt 3 = (letters 'c' 'k').1
  · by_cases hsecond : p.byteAt 4 = (letters 'c' 'k').2
    · have hcmd : p.cmdField = letters 'c' 'k' := Prod.ext hfirst hsecond
      rw [if_neg (not_not.mpr hfirst), if_neg (not_not.mpr hsecond), if_pos hcmd]
      exact forall_inContent_iff 13 (by decide) (by decide)
    · have hcmd : p.cmdField ≠ letters 'c' 'k' := fun h ↦ hsecond (congrArg Prod.snd h)
      rw [if_neg (not_not.mpr hfirst), if_pos hsecond, if_neg hcmd]
      exact forall_inContent_iff 4 (by decide) (by decide)
  · have hcmd : p.cmdField ≠ letters 'c' 'k' := fun h ↦ hfirst (congrArg Prod.fst h)
    rw [if_pos hfirst, if_neg hcmd, forall_inContent_iff 3 (by decide) (by decide)]
    omega

theorem touches_inContent_iff {p : Packet} (hnine : 9 ≤ p.getSize) (a : Accessor) :
    (∀ i ∈ a.touches p, p.InContent i) ↔ a.needs p ≤ p.getSize := by
  have hsome : ¬ p.getSize < 1 := by omega
  have hpos : 0 < p.getSize := by omega
  cases a with
  | getDataNo =>
      rw [touches, if_neg hsome]
      exact forall_inContent_iff 8 (by decide) (by decide)
  | getInterval =>
      rw [touches, if_neg hsome]
      exact forall_inContent_iff 7 (by decide) (by decide)
  | getAssignedPort =>
      rw [touches, if_neg hsome]
      exact forall_inContent_iff 6 (by decide) (by decide)
  | getMPTime => exact getMPTime_inContent_iff hnine
  | getStatus =>
      rw [touches, if_pos hpos]
      exact forall_inContent_iff 18 (by decide) (by decide)
  | getStartNum =>
      rw [touches]
      exact forall_inContent_iff 8 (by decide) (by decide)
  | getEndNum =>
      rw [touches]
      exact forall_inContent_iff 10 (by decide) (by decide)
  | setStartNum =>
      rw [touches]
      exact forall_inContent_iff 8 (by decide) (by decide)

/-- The fields an accessor touches in a packet that was received lie in its content
exactly if the packet has the bytes for them. -/
theorem received_inContent_iff (object : Packet) (input : List ReadResult) (a : Accessor)
    (hreturned : (object.receiveFrameFrom input).thrown = none)
    (hne : (object.receiveFrameFrom input).packet.strCache ≠ []) :
    (∀ i ∈ a.touches (object.receiveFrameFrom input).packet,
        (object.receiveFrameFrom input).packet.InContent i) ↔
      a.needs (object.receiveFrameFrom input).packet ≤
        (object.receiveFrameFrom input).packet.getSize := by
  have hok := (Packet.receiveFrameFrom_complete object input hreturned).resolve_left hne
  exact touches_inContent_iff (length_ge_of_isFrameCRCOK hok) a

/-- A packet with these bytes as it is received. -/
def receivedAlone (bytes : List Byte) : Received :=
  (Packet.mk [] []).receiveFrameFrom (bytes.map byte ++ [zero])

/-- A measurement with a number is long enough for it. -/
theorem received_inContent_sampleFrame :
    (receivedAlone (DataPacketQueue.sampleFrame 1).strCache).thrown = none ∧
      ∀ i ∈ getDataNo.touches (receivedAlone (DataPacketQueue.sampleFrame 1).strCache).packet,
        (receivedAlone (DataPacketQueue.sampleFrame 1).strCache).packet.InContent i := by
  have hreturned : (receivedAlone (DataPacketQueue.sampleFrame 1).strCache).thrown = none := by
    decide +kernel
  refine ⟨hreturned, (received_inContent_iff _ _ getDataNo hreturned ?_).mpr ?_⟩ <;>
    decide +kernel

/-- The shortest frame has no number: the call that looks for it reads the second half
of the checksum and the end byte. -/
theorem getDataNo_of_trailer :
    (receivedAlone Packet.requestFrame).thrown = none ∧
      (receivedAlone Packet.requestFrame).packet.strCache = Packet.requestFrame ∧
      Packet.requestFrame.length = 9 ∧
      getDataNo.touches (receivedAlone Packet.requestFrame).packet = [7, 8] ∧
      ¬ (receivedAlone Packet.requestFrame).packet.InContent 7 ∧
      ¬ (receivedAlone Packet.requestFrame).packet.InContent 8 ∧
      (receivedAlone Packet.requestFrame).packet.getDataNo = 0x45#8 ++ EOT := by
  decide +kernel

end Accessor

end DeviceAgent
