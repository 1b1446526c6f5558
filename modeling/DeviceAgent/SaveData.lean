import DeviceAgent.PacketQueue

/-!
# `SaveData`, call by call

`Save` truncates the file before it takes the lock of the queue, and then writes the records
with two calls of `write` each.  The reader and the shutdown handler both save the queue, so
one may truncate the file while the other writes; the writes that follow leave a hole.  What
the calls of `write` have taken is in the file, also if the program is stopped then.
-/

namespace DeviceAgent

open DataPacketQueue

/-- The threads that call `SaveData`. -/
inductive Saver
  | reader
  | shutdown
  deriving DecidableEq, Repr

def Saver.other : Saver → Saver
  | .reader => .shutdown
  | .shutdown => .reader

theorem Saver.eq_or_eq_other (who who' : Saver) : who' = who ∨ who' = who.other := by
  cases who <;> cases who' <;> simp [other]

theorem Saver.other_other (who : Saver) : who.other.other = who := by
  cases who <;> rfl

theorem Saver.other_ne (who : Saver) : who.other ≠ who := by
  cases who <;> simp [other]

/-- Where a thread is in `SaveData`: outside; behind the look at the size of the queue; with
the file open and the lock not yet taken; or in the loop under the lock, at this place of the
file and with this still to be written. -/
inductive SavePoint
  | outside
  | found
  | opened
  | writing (place : ℕ) (todo : List (List Byte))
  deriving DecidableEq, Repr

namespace SavePoint

def isWriting : SavePoint → Bool
  | .writing _ _ => true
  | _ => false

/-- The thread has the file open. -/
def isOpen : SavePoint → Bool
  | .opened => true
  | .writing _ _ => true
  | _ => false

end SavePoint

/-- What the server and the file know a packet by. -/
def contents (queue : List Packet) : List (List Byte) := queue.map Packet.strCache

namespace DataPacketQueue

/-- What the calls of `write` are given. -/
def pieces (queue : List Packet) : List (List Byte) :=
  queue.flatMap fun p ↦
    if p.getSize = 0 then [] else [writeInt (BitVec.ofNat 32 p.getSize), p.strCache]

theorem flatten_pieces (queue : List Packet) : (pieces queue).flatten = save queue := by
  induction queue with
  | nil => rfl
  | cons p queue ih =>
      rw [save, List.flatMap_cons, record, pieces, List.flatMap_cons, List.flatten_append]
      change _ ++ (pieces queue).flatten = _ ++ save queue
      rw [ih]
      split_ifs <;> simp

end DataPacketQueue

/-- The file of the queue and the threads that save to it. -/
structure Store where
  file : Option (List Byte)
  point : Saver → SavePoint

inductive SaveEvent
  | look (who : Saver)
  | openFile (who : Saver) (ok : Bool)
  | lock (who : Saver)
  /-- One call of `write`, which takes this many bytes. -/
  | write (who : Saver) (count : ℕ)
  | close (who : Saver)
  deriving DecidableEq, Repr

def SaveEvent.who : SaveEvent → Saver
  | .look who => who
  | .openFile who _ => who
  | .lock who => who
  | .write who _ => who
  | .close who => who

/-- Writing at a place of a file; if the file ends before it, the gap reads as zeros. -/
def writeAt (file : List Byte) (place : ℕ) (bytes : List Byte) : List Byte :=
  file.take place ++ List.replicate (place - file.length) 0x00#8 ++ bytes ++
    file.drop (place + bytes.length)

theorem writeAt_append (written tail bytes : List Byte) :
    ∃ tail', writeAt (written ++ tail) written.length bytes = written ++ bytes ++ tail' := by
  refine ⟨(written ++ tail).drop (written.length + bytes.length), ?_⟩
  have hnone : written.length - (written ++ tail).length = 0 := by
    rw [List.length_append]
    omega
  rw [writeAt, List.take_left, hnone, List.replicate_zero, List.append_nil]

theorem writeAt_end (written bytes : List Byte) :
    writeAt written written.length bytes = written ++ bytes := by
  have hend : written.drop (written.length + bytes.length) = [] :=
    List.drop_eq_nil_of_le (Nat.le_add_right _ _)
  rw [writeAt, hend, List.take_length, Nat.sub_self, List.replicate_zero, List.append_nil,
    List.append_nil]

namespace Store

def moveTo (d : Store) (who : Saver) (p : SavePoint) : Store :=
  { d with point := Function.update d.point who p }

/-- A thread is in the loop of `Save`, so that `Push` and `Pop` wait. -/
def locked (d : Store) : Bool := (d.point .reader).isWriting || (d.point .shutdown).isWriting

/-- A thread has the file open. -/
def busy (d : Store) : Bool := (d.point .reader).isOpen || (d.point .shutdown).isOpen

/-- A call of `write` that takes less than it is given ends the loop. -/
def wrote (d : Store) (who : Saver) (place : ℕ) (piece : List Byte) (todo : List (List Byte))
    (count : ℕ) : Store :=
  { d.moveTo who (if count < piece.length then .outside
      else .writing (place + piece.length) todo) with
    file := some (writeAt (d.file.getD []) place (piece.take count)) }

def step (queue : List Packet) (d : Store) : SaveEvent → Option Store
  | .look who =>
      if d.point who = .outside then some (if queue = [] then d else d.moveTo who .found)
      else none
  | .openFile who ok =>
      if d.point who = .found then
        some (if ok then { d.moveTo who .opened with file := some [] } else d.moveTo who .outside)
      else none
  | .lock who =>
      if d.point who = .opened ∧ d.locked = false then
        some (d.moveTo who (.writing 0 (pieces queue)))
      else none
  | .write who count =>
      match d.point who with
      | .writing place (piece :: todo) => some (d.wrote who place piece todo count)
      | _ => none
  | .close who =>
      match d.point who with
      | .writing _ [] => some (d.moveTo who .outside)
      | _ => none

/-- The call of `open` fails, or the call of `write` takes too little. -/
def fails (d : Store) : SaveEvent → Bool
  | .openFile _ ok => !ok
  | .write who count =>
      match d.point who with
      | .writing _ (piece :: _) => decide (count < piece.length)
      | _ => false
  | _ => false

/-- Everything a step can do. -/
inductive Moves (queue : List Packet) (d : Store) : SaveEvent → Store → Prop
  | spare (who : Saver) (hpoint : d.point who = .outside) (hqueue : queue = []) :
      Moves queue d (.look who) d
  | find (who : Saver) (hpoint : d.point who = .outside) (hqueue : queue ≠ []) :
      Moves queue d (.look who) (d.moveTo who .found)
  | miss (who : Saver) (hpoint : d.point who = .found) :
      Moves queue d (.openFile who false) (d.moveTo who .outside)
  | truncate (who : Saver) (hpoint : d.point who = .found) :
      Moves queue d (.openFile who true) { d.moveTo who .opened with file := some [] }
  | lock (who : Saver) (hpoint : d.point who = .opened) (hfree : d.locked = false) :
      Moves queue d (.lock who) (d.moveTo who (.writing 0 (pieces queue)))
  | write (who : Saver) (place : ℕ) (piece : List Byte) (todo : List (List Byte)) (count : ℕ)
      (hpoint : d.point who = .writing place (piece :: todo)) :
      Moves queue d (.write who count) (d.wrote who place piece todo count)
  | close (who : Saver) (place : ℕ) (hpoint : d.point who = .writing place []) :
      Moves queue d (.close who) (d.moveTo who .outside)

theorem moves_of_step {queue : List Packet} {d d' : Store} {e : SaveEvent}
    (h : d.step queue e = some d') : Moves queue d e d' := by
  cases e with
  | look who =>
      simp only [step, Option.ite_none_right_eq_some] at h
      obtain ⟨hpoint, heq⟩ := h
      split_ifs at heq with hqueue
      · obtain rfl := Option.some.inj heq
        exact .spare who hpoint hqueue
      · obtain rfl := Option.some.inj heq
        exact .find who hpoint hqueue
  | openFile who ok =>
      simp only [step, Option.ite_none_right_eq_some] at h
      obtain ⟨hpoint, heq⟩ := h
      cases ok with
      | true =>
          obtain rfl := Option.some.inj heq
          exact .truncate who hpoint
      | false =>
          obtain rfl := Option.some.inj heq
          exact .miss who hpoint
  | lock who =>
      simp only [step, Option.ite_none_right_eq_some] at h
      obtain ⟨⟨hpoint, hfree⟩, heq⟩ := h
      obtain rfl := Option.some.inj heq
      exact .lock who hpoint hfree
  | write who count =>
      simp only [step] at h
      split at h
      · rename_i place piece todo hpoint
        obtain rfl := Option.some.inj h
        exact .write who place piece todo count hpoint
      · cases h
  | close who =>
      simp only [step] at h
      split at h
      · rename_i place hpoint
        obtain rfl := Option.some.inj h
        exact .close who place hpoint
      · cases h

@[simp] theorem moveTo_self (d : Store) (who : Saver) (p : SavePoint) :
    (d.moveTo who p).point who = p := Function.update_self ..

@[simp] theorem moveTo_other (d : Store) (who : Saver) (p : SavePoint) :
    (d.moveTo who p).point who.other = d.point who.other :=
  Function.update_of_ne who.other_ne ..

/-- What holds of the thread that moves and of the other one holds of both. -/
theorem forall_moveTo {d : Store} {who : Saver} {p : SavePoint} (P : SavePoint → Prop)
    (hself : P p) (hother : P (d.point who.other)) : ∀ w, P ((d.moveTo who p).point w) := by
  intro w
  rcases who.eq_or_eq_other w with rfl | rfl
  · rwa [moveTo_self]
  · rwa [moveTo_other]

theorem locked_eq (d : Store) (who : Saver) :
    d.locked = ((d.point who).isWriting || (d.point who.other).isWriting) := by
  cases who
  · rfl
  · exact Bool.or_comm _ _

theorem busy_eq (d : Store) (who : Saver) :
    d.busy = ((d.point who).isOpen || (d.point who.other).isOpen) := by
  cases who
  · rfl
  · exact Bool.or_comm _ _

end Store

end DeviceAgent
