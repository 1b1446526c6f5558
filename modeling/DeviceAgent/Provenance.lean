import DeviceAgent.PowerCuts
import DeviceAgent.SerialPort

/-!
# Where the server's measurements come from

The reader, the queue with its file, and the sender put together: from the bytes the
monitoring post sends over the serial line to the bytes the server receives.  Nothing on the
way makes up or changes a measurement, over restarts, reconnections and failures of the serial
device alike, until it is written to the connection: there it is cut off or filled up to the
size of a frame.
-/

namespace DeviceAgent

open ReadResult DataPacketQueue

/-! ## A frame is a piece of what was read -/

def ReadResult.byte? : ReadResult → Option Byte
  | .byte b => some b
  | .zero => none
  | .fail _ => none

def heardBytes (input : List ReadResult) : List Byte := input.filterMap ReadResult.byte?

theorem heardBytes_serialReads (line : List (Option Byte)) :
    heardBytes (serialReads line) = line.reduceOption := by
  rw [heardBytes, serialReads, List.filterMap_map, List.reduceOption]
  congr 1
  funext answer
  cases answer <;> rfl

namespace Packet

theorem isInfix_heard (used : List Byte) (buff : Byte) (input : List ReadResult) :
    used ++ [buff] <:+: used ++ buff :: heardBytes input :=
  ((List.prefix_append_right_inj used).mpr ⟨heardBytes input, rfl⟩).isInfix

/-- The buffer is the end of what was read before. -/
theorem collectFrame_isInfix (used : List Byte) (p : Packet) (buff : Byte)
    (input : List ReadResult) (hp : p.strCache <:+ used) :
    (collectFrame p buff input).packet.strCache <:+: used ++ buff :: heardBytes input := by
  fun_induction collectFrame p buff input generalizing used with
  | case1 input p buff stored haccept =>
      exact (storeByte_suffix_append hp buff).isInfix.trans (isInfix_heard used buff input)
  | case2 p buff stored hgo =>
      exact ((resync_sound _).1.trans (storeByte_suffix_append hp buff)).isInfix
  | case3 p buff stored hgo rest =>
      exact ((resync_sound _).1.trans (storeByte_suffix_append hp buff)).isInfix.trans
        (isInfix_heard used buff (zero :: rest))
  | case4 p buff stored hgo e rest =>
      exact (storeByte_suffix_append hp buff).isInfix.trans
        (isInfix_heard used buff (fail e :: rest))
  | case5 p buff stored hgo b rest ih =>
      have hlater := ih (used ++ [buff]) (storeByte_suffix_append hp buff)
      rwa [List.append_assoc] at hlater

theorem receiveFrameFrom_isInfix (p : Packet) (input : List ReadResult) :
    (p.receiveFrameFrom input).packet.strCache <:+: heardBytes input := by
  rw [receiveFrameFrom]
  have hclear : p.clear.strCache = [] := rfl
  generalize p.clear = q at hclear
  induction input with
  | nil => exact hclear ▸ List.nil_infix
  | cons r input ih =>
      cases r with
      | zero => exact hclear ▸ List.nil_infix
      | fail e => exact hclear ▸ List.nil_infix
      | byte b =>
          rw [scanFrame]
          split_ifs
          · exact collectFrame_isInfix [] q b input (by rw [hclear])
          · exact ih.trans (List.suffix_cons b _).isInfix

end Packet

namespace CurrentData

theorem frameAt_isInfix (line : List ReadResult) (k : ℕ) : frameAt line k <:+: heardBytes line := by
  induction k generalizing line with
  | zero => exact Packet.receiveFrameFrom_isInfix _ line
  | succ k ih =>
      have hrest := (Packet.receiveFrameFrom_rest (Packet.mk [] []) line).1
      exact (ih _).trans (hrest.filterMap _).isInfix

theorem delivered_eq (tries : ℕ) (frames : ℕ → List Byte) :
    delivered tries frames = [] ∨ ∃ k, delivered tries frames = frames k := by
  induction tries generalizing frames with
  | zero => exact Or.inl rfl
  | succ tries ih =>
      rw [delivered]
      split_ifs
      · exact Or.inr ⟨0, rfl⟩
      · exact Or.inr ⟨1, rfl⟩
      · rcases ih fun k ↦ frames (k + 2) with hnone | ⟨k, hk⟩
        · exact Or.inl hnone
        · exact Or.inr ⟨k + 2, hk⟩

end CurrentData

/-! ## A call of the reader -/

/-- What a call of `RequestCurrentData` finds: the clocks, the serial port with what `open`
returns for each `Read`, and what the device gives. -/
structure Measuring where
  machine : Byte
  clocks : Clocks
  /-- Bytes lying in the storage of the packet behind its end. -/
  beyond : List Byte
  timer : Timeval
  bInCommunicationError : Bool
  port : SerialPort
  fds : List ℤ
  raws : List RawRead

namespace Measuring

/-- The packet as the call leaves it. -/
def data (m : Measuring) : Packet :=
  ((CurrentData.mk ⟨[], m.beyond⟩ (m.port.reads m.fds m.raws).1 [] m.timer
    m.bInCommunicationError none 0).requestCurrentData m.machine m.clocks).data

/-- The bytes the device gives. -/
def sent (m : Measuring) : List Byte := m.raws.filterMap RawRead.byte?

theorem data_eq (m : Measuring) :
    ∃ line : List (Option Byte), line.reduceOption <+: m.sent ∧
      m.data = ((CurrentData.call m.beyond line m.timer m.bInCommunicationError).requestCurrentData
        m.machine m.clocks).data := by
  obtain ⟨line, -, hresults, used, hraws, -, hbytes⟩ := m.port.reads_seen m.fds m.raws
  refine ⟨line, ?_, ?_⟩
  · rw [sent, hraws, List.filterMap_append, hbytes]
    exact List.prefix_append _ _
  · rw [data, hresults]
    rfl

/-- What is returned is empty, or a frame that the device sent in one piece. -/
theorem data_isInfix (m : Measuring) :
    m.data.strCache = [] ∨
      isFrameCRCOK m.data.strCache = true ∧ m.data.strCache <:+: m.sent := by
  obtain ⟨line, hline, hdata⟩ := m.data_eq
  rw [hdata]
  refine (CurrentData.requestCurrentData_frame m.machine m.clocks m.beyond line m.timer
    m.bInCommunicationError).imp_right fun hok ↦ ⟨hok, ?_⟩
  rw [CurrentData.requestCurrentData_data]
  split_ifs
  · rcases CurrentData.delivered_eq 3
      fun k ↦ CurrentData.frameAt (serialReads line) (k + 2) with hnone | ⟨k, hk⟩
    · rw [hnone]
      exact List.nil_infix
    · rw [hk]
      have hframe := CurrentData.frameAt_isInfix (serialReads line) (k + 2)
      rw [heardBytes_serialReads] at hframe
      exact hframe.trans hline.isInfix
  · exact List.nil_infix

end Measuring

/-! ## The whole way -/

structure Plant where
  station : Station
  /-- What the device gave during the calls of the reader. -/
  sent : List (List Byte)

namespace Plant

inductive Event
  /-- A turn of `doReadData` up to the `Push`. -/
  | measure (m : Measuring)
  | station (e : Station.Event)

def start (file : Option (List Byte)) : Plant := ⟨Station.start file, []⟩

def step (s : Plant) : Event → Option Plant
  | .measure m =>
      if s.station.unsaved then none
      else if m.data.getSize = 0 then some { s with sent := s.sent ++ [m.sent] }
      else (s.station.step (.push m.data)).map fun station ↦ ⟨station, s.sent ++ [m.sent]⟩
  | .station (.push _) => none
  | .station e => (s.station.step e).map fun station ↦ { s with station := station }

/-- No frame is too long for the file, and while one thread is in `SaveData` the other does
not enter it. -/
def FitsFile (s : Plant) : Event → Prop
  | .measure m => m.data.getSize < 5000
  | .station e => s.station.Ordinary e

/-- The file had it at the start, or the device sent it. -/
def Origin (file : Option (List Byte)) (s : Plant) (c : List Byte) : Prop :=
  c ∈ contents (load file []) ∨ ∃ bytes ∈ s.sent, isFrameCRCOK c = true ∧ c <:+: bytes

structure Traced (file : Option (List Byte)) (s : Plant) : Prop where
  known : s.station.Known
  origin : ∀ p ∈ s.station.link.appended, Origin file s p.strCache

theorem Origin.mono {file : Option (List Byte)} {s s' : Plant} {c : List Byte}
    (h : Origin file s c) (hsent : s.sent ⊆ s'.sent) : Origin file s' c :=
  h.imp_right fun ⟨bytes, hbytes, hframe⟩ ↦ ⟨bytes, hsent hbytes, hframe⟩

theorem traced_start (file : Option (List Byte)) : Traced file (start file) :=
  ⟨Station.known_start file, fun _ hp ↦ Or.inl (List.mem_map_of_mem hp)⟩

theorem mem_appended_push {link link' : Link} {data p : Packet}
    (hstep : link.step (.push data) = some link') (hp : p ∈ link'.appended) :
    p ∈ link.appended ∨ p = data := by
  obtain rfl := Option.some.inj hstep
  refine (List.mem_append.mp hp).imp_right fun hnew ↦ ?_
  rcases push_cases link.sender.queue data with heq | ⟨heq, -, -⟩
  · simp [heq] at hnew
  · simpa [heq] using hnew

theorem Traced.measure {file : Option (List Byte)} {s s' : Plant} (h : Traced file s)
    {m : Measuring} (hfits : m.data.getSize < 5000) (hstep : s.step (.measure m) = some s') :
    Traced file s' := by
  have hsent : s.sent ⊆ s.sent ++ [m.sent] := List.subset_append_left _ _
  simp only [step] at hstep
  split_ifs at hstep with hunsaved hempty
  · obtain rfl := Option.some.inj hstep
    exact ⟨h.known, fun p hp ↦ (h.origin p hp).mono hsent⟩
  · obtain ⟨station, hpush, rfl⟩ := Option.map_eq_some_iff.mp hstep
    have hne : m.data.strCache ≠ [] := fun hnil ↦ hempty (congrArg List.length hnil)
    obtain ⟨hok, hpiece⟩ := m.data_isInfix.resolve_left hne
    refine ⟨h.known.step (e := .push m.data) ⟨hok, hfits⟩ hpush, fun p hp ↦ ?_⟩
    simp only [Station.step] at hpush
    split_ifs at hpush
    obtain ⟨link, hlink, rfl⟩ := Option.map_eq_some_iff.mp hpush
    rcases mem_appended_push hlink hp with hold | rfl
    · exact (h.origin p hold).mono hsent
    · exact Or.inr ⟨m.sent, List.mem_append_right _ (List.mem_singleton_self _), hok, hpiece⟩

/-- Only a push adds to what has been in the queue. -/
theorem appended_of_not_push {s s' : Station} {e : Station.Event} (hnot : ∀ data, e ≠ .push data)
    (hknown : s.Known) (hstep : s.step e = some s') : s'.link.appended = s.link.appended := by
  rcases Station.step_cases hstep with ⟨data, link, rfl, -⟩ | ⟨event, store, -, -, rfl⟩ |
    ⟨event, link, hline, hlink, -, rfl⟩ | ⟨-, rfl⟩
  · exact absurd rfl (hnot data)
  · rfl
  · exact (hknown.line.step hlink hline).2.appended
  · rfl

theorem Traced.station {file : Option (List Byte)} {s s' : Plant} (h : Traced file s)
    {e : Station.Event} (hordinary : s.station.Ordinary e)
    (hstep : s.step (.station e) = some s') : Traced file s' := by
  have hnot : ∀ data, e ≠ .push data := by
    rintro data rfl
    cases hstep
  have hmoved : (s.station.step e).map (fun station ↦ { s with station := station }) = some s' := by
    cases e with
    | push data => exact absurd rfl (hnot data)
    | _ => exact hstep
  obtain ⟨station, hstation, rfl⟩ := Option.map_eq_some_iff.mp hmoved
  refine ⟨h.known.step hordinary hstation, fun p hp ↦ h.origin p ?_⟩
  rwa [appended_of_not_push hnot h.known hstation] at hp

theorem traced_of_reaches {file : Option (List Byte)} {s : Plant}
    (h : Transition.Reaches step FitsFile (start file) s) : Traced file s := by
  refine h.invariant (Traced file) ?_ (traced_start file)
  rintro s (m | e) s' hs hfits hstep
  · exact hs.measure hfits hstep
  · exact hs.station hfits hstep

/-- What stands in a transmission before its packet ends is the packet's. -/
theorem take_dataPacketFrame (p : Packet) :
    p.dataPacketFrame.take p.strCache.length = p.strCache.take Packet.sizeofDataPacketFrame := by
  refine List.ext_getElem (by simp [Packet.dataPacketFrame, Nat.min_comm]) fun i hi hi' ↦ ?_
  have hsize : i < p.getSize := by
    rw [List.length_take] at hi'
    exact lt_of_lt_of_le hi' (Nat.min_le_right _ _)
  simp only [Packet.dataPacketFrame, List.getElem_take, List.getElem_map, List.getElem_range,
    Packet.byteAt_of_lt p hsize]
  exact List.getD_eq_getElem _ _ hsize

/-- The device does not answer for the time and the interval, and then sends a measurement
behind a stray byte. -/
def slowAnswer : Measuring where
  machine := 0x01
  clocks := ⟨⟨0, 0⟩, none, ⟨0, 0⟩, fun _ ↦ 0⟩
  beyond := []
  timer := ⟨0, 0⟩
  bInCommunicationError := false
  port := ⟨3, ⟨[3], []⟩⟩
  fds := List.replicate 30 3
  raws := [.empty, .empty, .empty, .empty, .byte 0x55] ++
    CurrentData.measurementAnswer.map RawRead.byte

/-- The measurement is saved, sent and received. -/
def deliveredAnswer : List Event :=
  [.measure slowAnswer, .station (.save (.look .reader)),
    .station (.save (.openFile .reader true)), .station (.save (.lock .reader)),
    .station (.save (.write .reader 4)), .station (.save (.write .reader 5000)),
    .station (.save (.close .reader)), .station (.line (.call ⟨5, true⟩)),
    .station (.line (.send Sender.silence 0 .again)),
    .station (.line (.send Sender.silence 0 .again)), .station (.line .receive)]

instance (s : Plant) : ∀ e, Decidable (s.FitsFile e)
  | .measure m => inferInstanceAs (Decidable (m.data.getSize < 5000))
  | .station e => inferInstanceAs (Decidable (s.station.Ordinary e))

end Plant

end DeviceAgent
