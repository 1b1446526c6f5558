import DeviceAgent.Foundations.Transition
import DeviceAgent.SaveData
import DeviceAgent.StoredFrames

/-!
# Saves that overlap

The reader and the shutdown handler may be in `Save` at once: one truncates the file before
or while the other writes, and then writes over it from the beginning without truncating it
again.  Meanwhile the sender takes packets off the queue, and the program may be stopped.
What a longer text had beyond stays in the file, and a truncation between two writes leaves a
hole.  The text of the last `Save` comes first in the file all the same, so `Load` finds its
packets first.
-/

namespace DeviceAgent

open DataPacketQueue

structure Saving where
  queue : List Packet
  store : Store
  /-- The queue as the last thread to take the lock in `Save` found it. -/
  last : Option (List Packet)
  /-- That thread has not come to the end of the queue. -/
  torn : Bool
  /-- The file was truncated since it took the lock. -/
  emptied : Bool

namespace Saving

/-- `Load` at the start of `doProcess`. -/
def start (file : Option (List Byte)) : Saving :=
  ⟨load file [], ⟨file, fun _ ↦ .outside⟩, none, false, false⟩

inductive Event
  | push (data : Packet)
  | pop
  | save (e : SaveEvent)
  /-- The program is stopped and started again. -/
  | restart

/-- The record of a step in `SaveData`. -/
def saved (s : Saving) (e : SaveEvent) (store : Store) : Saving :=
  match e with
  | .openFile _ ok => { s with store := store, emptied := s.emptied || ok }
  | .lock _ => { s with store := store, last := some s.queue, torn := true, emptied := false }
  | .close _ => { s with store := store, torn := false }
  | _ => { s with store := store }

def step (s : Saving) : Event → Option Saving
  | .push data =>
      -- The reader pushes and saves in turn.
      if s.store.point .reader = .outside ∧ s.store.locked = false then
        some { s with queue := push s.queue data }
      else none
  | .pop =>
      if s.queue = [] ∨ s.store.locked = true then none else some { s with queue := pop s.queue }
  | .save e => (s.store.step s.queue e).map (s.saved e)
  | .restart => some (start s.store.file)

/-- Every packet pushed fits into the file. -/
def PushesStorable (_ : Saving) : Event → Prop
  | .push data => Storable data
  | _ => True

instance (s : Saving) : ∀ e, Decidable (s.PushesStorable e)
  | .push data => inferInstanceAs (Decidable (Storable data))
  | .pop => isTrue trivial
  | .save _ => isTrue trivial
  | .restart => isTrue trivial

/-- The packets of a saved queue come first, whatever follows them in the file. -/
theorem load_save_append {q : List Packet} (hq : ∀ p ∈ q, Storable p)
    (hnos : (q.map Packet.getDataNo).Nodup) (tail : List Byte) :
    contents q <+: contents (load (some (save q ++ tail)) []) := by
  have hfuel : (save q ++ tail).length < (save q ++ tail).length + 1 + q.length := by omega
  have hrun := load_eq_loadLoop (save q ++ tail) [] hfuel
  rw [loadLoop_save hq [] (by simpa using hnos), List.nil_append] at hrun
  have hkeep := loadLoop_invariant (fun queue ↦ q.map reloaded <+: queue)
    (fun queue buf hqueue _ _ _ ↦ ?_) _ _ _ _ (List.suffix_refl tail) List.prefix_rfl hrun
  · have hcontents : contents (q.map reloaded) = contents q := by
      simp [contents, Function.comp_def]
    rw [← hcontents]
    exact hkeep.map Packet.strCache
  · rcases push_cases queue ((Packet.mk [] []).setPacket buf) with hpush | ⟨hpush, -, -⟩
    · rwa [hpush]
    · rw [hpush]
      exact hqueue.trans (List.prefix_append _ _)

/-- What holds of every queue the program can have. -/
def Orderly (q : List Packet) : Prop :=
  (∀ p ∈ q, Storable p) ∧ (q.map Packet.getDataNo).Nodup

theorem Orderly.push {q : List Packet} (h : Orderly q) {data : Packet} (hdata : Storable data) :
    Orderly (push q data) := by
  refine ⟨fun p hp ↦ ?_, push_nodup data h.2⟩
  rcases mem_of_mem_push hp with hp | rfl
  · exact h.1 p hp
  · exact hdata

theorem Orderly.pop {q : List Packet} (h : Orderly q) : Orderly (pop q) :=
  ⟨fun p hp ↦ h.1 p (List.mem_of_mem_tail hp), h.2.sublist ((List.tail_sublist q).map _)⟩

/-- The thread in the loop has written this much of the queue, and unless the file was
truncated meanwhile, that is how the file begins. -/
def Under (s : Saving) (place : ℕ) (todo : List (List Byte)) : Prop :=
  s.last = some s.queue ∧ s.torn = true ∧ ∃ written, written ++ todo.flatten = save s.queue ∧
    place = written.length ∧ (s.emptied = false → ∃ tail, s.store.file = some (written ++ tail))

/-- What holds of a thread that is there. -/
def At (s : Saving) : SavePoint → Prop
  | .opened => s.store.file.isSome = true
  | .writing place todo => s.Under place todo
  | _ => True

structure Sound (s : Saving) : Prop where
  queue : Orderly s.queue
  points : ∀ who, s.At (s.store.point who)
  alone : (s.store.point .reader).isWriting = false ∨ (s.store.point .shutdown).isWriting = false
  emptied : s.emptied = true → ∃ who, s.store.point who = .opened
  last : ∀ q, s.last = some q → Orderly q ∧
    (s.torn = false → s.emptied = false → ∃ tail, s.store.file = some (save q ++ tail))

theorem sound_start (file : Option (List Byte)) : Sound (start file) :=
  ⟨load_wellFormed file, fun _ ↦ trivial, Or.inl rfl, fun h ↦ Bool.noConfusion h,
    fun _ h ↦ by cases h⟩

variable {s s' : Saving}

/-- Only a thread in the loop depends on more than that there is a file. -/
theorem At.of_idle {p : SavePoint} (h : s.At p) (hp : p.isWriting = false)
    (hfile : s.store.file.isSome = true → s'.store.file.isSome = true) : s'.At p := by
  cases p with
  | outside => trivial
  | found => trivial
  | opened => exact hfile h
  | writing place todo => cases hp

theorem Sound.other_idle (h : Sound s) {who : Saver}
    (hwho : (s.store.point who).isWriting = true) :
    (s.store.point who.other).isWriting = false := by
  have halone := h.alone
  cases who with
  | reader => exact halone.resolve_left (by rw [hwho]; exact Bool.noConfusion)
  | shutdown => exact halone.resolve_right (by rw [hwho]; exact Bool.noConfusion)

theorem alone_moveTo {d : Store} {who : Saver} {p : SavePoint}
    (h : p.isWriting = false ∨ (d.point who.other).isWriting = false) :
    ((d.moveTo who p).point .reader).isWriting = false ∨
      ((d.moveTo who p).point .shutdown).isWriting = false := by
  rw [← Store.moveTo_self d who p, ← Store.moveTo_other d who p] at h
  cases who
  · exact h
  · exact h.symm

/-- What was opened stays so while the other thread goes on. -/
theorem opened_moveTo {d : Store} {who : Saver} (p : SavePoint) (hwho : d.point who ≠ .opened)
    (h : ∃ w, d.point w = .opened) : ∃ w, (d.moveTo who p).point w = .opened := by
  obtain ⟨w, hw⟩ := h
  refine ⟨w, ?_⟩
  rcases who.eq_or_eq_other w with rfl | rfl
  · exact absurd hw hwho
  · rwa [Store.moveTo_other]

/-- With nobody in the loop the queue may change. -/
theorem Sound.withQueue (h : Sound s) (hfree : s.store.locked = false) {q : List Packet}
    (hq : Orderly q) : Sound { s with queue := q } := by
  refine ⟨hq, fun who ↦ (h.points who).of_idle ?_ id, h.alone, h.emptied, h.last⟩
  rw [Store.locked_eq _ who] at hfree
  exact (Bool.or_eq_false_iff.mp hfree).1

/-- A thread that has not opened the file goes on without it. -/
theorem Sound.moved (h : Sound s) {who : Saver} {p : SavePoint}
    (hwho : s.store.point who ≠ .opened) (hp : p.isOpen = false) :
    Sound { s with store := s.store.moveTo who p } := by
  have hidle : p.isWriting = false := by cases p <;> first | rfl | cases hp
  refine ⟨h.queue, ?_, alone_moveTo (Or.inl hidle),
    fun hemptied ↦ opened_moveTo p hwho (h.emptied hemptied), h.last⟩
  refine Store.forall_moveTo (At _) ?_ (h.points _)
  cases p <;> trivial

theorem Sound.truncate (h : Sound s) (who : Saver) : Sound { s with
    store := { s.store.moveTo who .opened with file := some [] }, emptied := true } := by
  refine ⟨h.queue, Store.forall_moveTo (At _) rfl ?_, alone_moveTo (Or.inl rfl),
    fun _ ↦ ⟨who, Store.moveTo_self ..⟩,
    fun q hq ↦ ⟨(h.last q hq).1, fun _ hemptied ↦ Bool.noConfusion hemptied⟩⟩
  -- A save in its loop goes on, but the file no longer begins with what it has written.
  have hother := h.points who.other
  cases hpoint : s.store.point who.other with
  | writing place todo =>
      rw [hpoint] at hother
      obtain ⟨hlast, htorn, written, hwritten, hplace, -⟩ := hother
      exact ⟨hlast, htorn, written, hwritten, hplace, fun hemptied ↦ Bool.noConfusion hemptied⟩
  | outside => trivial
  | found => trivial
  | opened => rfl

theorem Sound.lock (h : Sound s) {who : Saver} (hwho : s.store.point who = .opened)
    (hfree : s.store.locked = false) : Sound { s with
      store := s.store.moveTo who (.writing 0 (pieces s.queue))
      last := some s.queue, torn := true, emptied := false } := by
  have hopen := h.points who
  rw [hwho] at hopen
  obtain ⟨bytes, hfile⟩ := Option.isSome_iff_exists.mp hopen
  have hother : (s.store.point who.other).isWriting = false := by
    rw [Store.locked_eq _ who] at hfree
    exact (Bool.or_eq_false_iff.mp hfree).2
  refine ⟨h.queue, Store.forall_moveTo (At _) ?_ ((h.points _).of_idle hother id),
    alone_moveTo (Or.inr hother), fun hemptied ↦ Bool.noConfusion hemptied,
    fun q hq ↦ ⟨Option.some.inj hq ▸ h.queue, fun htorn ↦ Bool.noConfusion htorn⟩⟩
  exact ⟨rfl, rfl, [], flatten_pieces s.queue, rfl, fun _ ↦ ⟨bytes, hfile⟩⟩

theorem Sound.wrote (h : Sound s) {who : Saver} {place : ℕ} {piece : List Byte}
    {todo : List (List Byte)} (hwho : s.store.point who = .writing place (piece :: todo))
    (count : ℕ) : Sound { s with store := s.store.wrote who place piece todo count } := by
  have hunder := h.points who
  rw [hwho] at hunder
  obtain ⟨hlast, htorn, written, hwritten, rfl, hfile⟩ := hunder
  have hother : (s.store.point who.other).isWriting = false := h.other_idle (by rw [hwho]; rfl)
  refine ⟨h.queue, Store.forall_moveTo (At _) ?_ ((h.points _).of_idle hother fun _ ↦ rfl),
    alone_moveTo (Or.inr hother), fun hemptied ↦ ?_, fun q hq ↦ ⟨(h.last q hq).1, fun hwhole ↦ ?_⟩⟩
  · split_ifs with hcut
    · trivial
    · refine ⟨hlast, htorn, written ++ piece, ?_, by rw [List.length_append], fun hkept ↦ ?_⟩
      · rw [List.append_assoc, ← List.flatten_cons]
        exact hwritten
      · obtain ⟨tail, hbytes⟩ := hfile hkept
        obtain ⟨tail', hafter⟩ := writeAt_append written tail piece
        refine ⟨tail', ?_⟩
        change some (writeAt (s.store.file.getD []) written.length (piece.take count)) = _
        rw [hbytes, Option.getD_some, List.take_of_length_le (Nat.le_of_not_lt hcut), hafter]
  · exact opened_moveTo _ (by rw [hwho]; exact SavePoint.noConfusion) (h.emptied hemptied)
  · rw [htorn] at hwhole
    cases hwhole

theorem Sound.close (h : Sound s) {who : Saver} {place : ℕ}
    (hwho : s.store.point who = .writing place []) :
    Sound { s with store := s.store.moveTo who .outside, torn := false } := by
  have hunder := h.points who
  rw [hwho] at hunder
  obtain ⟨hlast, -, written, hwritten, -, hfile⟩ := hunder
  rw [List.flatten_nil, List.append_nil] at hwritten
  have hother : (s.store.point who.other).isWriting = false := h.other_idle (by rw [hwho]; rfl)
  refine ⟨h.queue, Store.forall_moveTo (At _) trivial ((h.points _).of_idle hother id),
    alone_moveTo (Or.inl rfl), fun hemptied ↦ ?_, fun q hq ↦ ?_⟩
  · exact opened_moveTo _ (by rw [hwho]; exact SavePoint.noConfusion) (h.emptied hemptied)
  · obtain rfl : s.queue = q := Option.some.inj (hlast.symm.trans hq)
    exact ⟨h.queue, fun _ hkept ↦ hwritten ▸ hfile hkept⟩

theorem Sound.step {e : Event} (h : Sound s) (he : s.PushesStorable e)
    (hstep : s.step e = some s') : Sound s' := by
  cases e with
  | push data =>
      simp only [Saving.step, Option.ite_none_right_eq_some] at hstep
      obtain ⟨⟨-, hfree⟩, heq⟩ := hstep
      obtain rfl := Option.some.inj heq
      exact h.withQueue hfree (h.queue.push he)
  | pop =>
      simp only [Saving.step, Option.ite_none_left_eq_some, not_or, Bool.not_eq_true] at hstep
      obtain ⟨⟨-, hfree⟩, heq⟩ := hstep
      obtain rfl := Option.some.inj heq
      exact h.withQueue hfree h.queue.pop
  | save e =>
      obtain ⟨store, hstore, rfl⟩ := Option.map_eq_some_iff.mp hstep
      cases Store.moves_of_step hstore with
      | spare who hpoint hqueue => exact h
      | find who hpoint hqueue => exact h.moved (by rw [hpoint]; exact SavePoint.noConfusion) rfl
      | miss who hpoint =>
          rw [saved, Bool.or_false]
          exact h.moved (by rw [hpoint]; exact SavePoint.noConfusion) rfl
      | truncate who hpoint =>
          rw [saved, Bool.or_true]
          exact h.truncate who
      | lock who hpoint hfree => exact h.lock hpoint hfree
      | write who place piece todo count hpoint => exact h.wrote hpoint count
      | close who place hpoint => exact h.close hpoint
  | restart =>
      obtain rfl := Option.some.inj hstep
      exact sound_start s.store.file

/-- However the saves overlap with each other and with the sender: when none of them has the
file open and the last one to write was not cut short, the next start finds all the packets
it wrote, in their order, in front of whatever else is in the file. -/
theorem overlapping_saves_keep (file : Option (List Byte)) (s : Saving) (q : List Packet)
    (hreach : Transition.Reaches step PushesStorable (start file) s)
    (hclosed : s.store.busy = false) (hlast : s.last = some q) (htorn : s.torn = false) :
    contents q <+: contents (load s.store.file []) := by
  have hsound : Sound s :=
    hreach.invariant Sound (fun _ _ _ hs he hstep ↦ hs.step he hstep) (sound_start file)
  have hemptied : s.emptied = false := by
    by_contra htrue
    obtain ⟨who, hopened⟩ := hsound.emptied (by simpa using htrue)
    rw [Store.busy_eq _ who, hopened] at hclosed
    cases hclosed
  obtain ⟨⟨hstorable, hnos⟩, hfile⟩ := hsound.last q hlast
  obtain ⟨tail, hfile⟩ := hfile htorn hemptied
  rw [hfile]
  exact load_save_append hstorable hnos tail

/-- The calls of a `Save` that writes this many packets. -/
def wholeSave (who : Saver) (packets : ℕ) : List Event :=
  .save (.lock who) :: List.replicate (2 * packets) (.save (.write who 5000)) ++
    [.save (.close who)]

/-- Both threads open the file; the reader writes two packets, the first is delivered, and
the shutdown handler writes what is left. -/
def bothOpen : List Event :=
  [.push (sampleFrame 1), .save (.look .reader), .save (.openFile .reader true)] ++
    wholeSave .reader 1 ++
    [.push (sampleFrame 2), .save (.look .reader), .save (.look .shutdown),
      .save (.openFile .reader true), .save (.openFile .shutdown true)] ++
    wholeSave .reader 2 ++ [.pop] ++ wholeSave .shutdown 1

theorem overlapping_saves_keep_both :
    ∃ s, Transition.run step bothOpen (start none) = some s ∧
      s.store.file = some (save [sampleFrame 2, sampleFrame 2]) ∧
      contents [sampleFrame 2] <+: contents (load s.store.file []) := by
  obtain ⟨s, hrun, hfile, hclosed, hlast, htorn⟩ :=
    Transition.exists_run step bothOpen (start none)
      (fun s ↦ s.store.file = some (save [sampleFrame 2, sampleFrame 2]) ∧
        s.store.busy = false ∧ s.last = some [sampleFrame 2] ∧ s.torn = false) (by decide)
  exact ⟨s, hrun, hfile,
    overlapping_saves_keep none s _ (.of_run (by decide) hrun) hclosed hlast htorn⟩

/-- What was delivered between the two writes comes back, and behind what was not: three
packets are written, two are taken off, and the third is written over the first. -/
example : contents (load (some (writeAt (save [sampleFrame 1, sampleFrame 2, sampleFrame 3]) 0
    (save [sampleFrame 3]))) []) = contents [sampleFrame 3, sampleFrame 2] := by decide

end Saving

end DeviceAgent
