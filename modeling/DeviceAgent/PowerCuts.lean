import DeviceAgent.Delivery
import DeviceAgent.Restart
import DeviceAgent.SaveData
import DeviceAgent.Foundations.Journal

/-!
# Measurements across restarts

The delivery of measurements together with the file the queue is saved to, call by call.  The
program may be stopped between any two steps, also in the middle of a `Save`, and the next
start loads what the file holds.  The file lags behind the queue at both ends: packets
acknowledged since the last `Save` are still in it, and a packet just pushed is not yet.  While
one thread saves, the other does not begin to.
-/

namespace DeviceAgent

open DataPacketQueue CommunicationCommand

namespace DataPacketQueue

/-- What a beginning of the saved queue loads to is a beginning of the queue. -/
theorem load_prefix_save {queue : List Packet} (hqueue : ∀ p ∈ queue, Storable p)
    (hnos : (queue.map Packet.getDataNo).Nodup) {bytes : List Byte}
    (hbytes : bytes <+: save queue) :
    (load (some bytes) []).map Packet.strCache <+: queue.map Packet.strCache := by
  have hcut := List.prefix_iff_eq_take.mp hbytes
  generalize bytes.length = k at hcut
  subst hcut
  have hfuel := Nat.lt_succ_self ((save queue).take k).length
  rw [load_eq_of_loadLoop hfuel (loadLoop_take_save hqueue hnos _ _ hfuel), List.map_map]
  exact (List.take_prefix _ _).map Packet.strCache

end DataPacketQueue

namespace Link

/-- Everything a step other than a push can do to the queue and to the transmissions. -/
structure Moved (s s' : Link) : Prop where
  queue : s'.sender.queue = s.sender.queue ∨
    ∃ p, s.sender.queue = p :: s'.sender.queue ∧ (s.Got p.getDataNo ∨ isMeasurement p = false)
  appended : s'.appended = s.appended
  received : s.received ⊆ s'.received
  sources : ∀ t ∈ s'.line, t.packet ∈ s.sender.queue ∨ t ∈ s.line

theorem Moves.moved {s s' : Link} (h : Moves s s') : Moved s s' := by
  refine ⟨?_, h.appended, h.received, fun t ht ↦ ?_⟩
  · cases h with
    | pop sender packet hqueue hwhy => exact Or.inr ⟨packet, hqueue, hwhy⟩
    | keep sender outbound stale inbound hqueue hless => exact Or.inl hqueue
    | transmit sender packet hqueue hhead hmeasurement => exact Or.inl hqueue
    | arrive t outbound stale ht hless => exact Or.inl rfl
  · rcases h.line t ht with hold | ⟨packet, hhead, -, rfl⟩
    · exact Or.inr hold
    · exact Or.inl (List.mem_of_mem_head? hhead)

end Link

/-! ## The station -/

structure Station where
  link : Link
  /-- The file of measurements and the threads that save to it. -/
  store : Store
  /-- The reader is between `Push` and the end of `SaveData`. -/
  unsaved : Bool
  /-- Since the last whole `Save`, one could not open the file or was cut short. -/
  torn : Bool
  /-- The contents of all packets that whole `Save`s have written. -/
  stored : List (List Byte)

namespace Station

def queue (s : Station) : List Packet := s.link.sender.queue

/-- The sender before `SendCurrentData` is called. -/
def offDuty (queue : List Packet) : Sender :=
  { Sender.call queue ⟨-1, false⟩ false with point := .returned }

def start (file : Option (List Byte)) : Station where
  link := ⟨offDuty (load file []), load file [], [], [], [], []⟩
  store := ⟨file, fun _ ↦ .outside⟩
  unsaved := false
  torn := false
  stored := contents (load file [])

inductive Event
  | push (data : Packet)
  /-- A step of the reader or of `main_work` in `SaveData`. -/
  | save (e : SaveEvent)
  /-- The sender, the connection and the server. -/
  | line (e : Link.Event)
  /-- The program is stopped and started again. -/
  | restart

def saved (s : Station) (e : SaveEvent) (store : Store) : Station where
  link := s.link
  store := store
  -- The reader goes on when it is outside again.
  unsaved := (store.point .reader != .outside || e.who != .reader) && s.unsaved
  torn := match e with
    | .close _ => false
    | e => s.store.fails e || s.torn
  stored := match e with
    | .close _ => s.stored ++ contents s.queue
    | _ => s.stored

def restarted (s : Station) : Station :=
  { s with
    link := s.link.reconnected (offDuty (load s.store.file []))
    store := ⟨s.store.file, fun _ ↦ .outside⟩
    unsaved := false
    torn := false }

def step (s : Station) : Event → Option Station
  | .push data =>
      if s.unsaved = true ∨ s.store.locked = true ∨ data.getSize = 0 then none
      else (s.link.step (.push data)).map fun link ↦ { s with link := link, unsaved := true }
  | .save e =>
      -- The reader saves only behind a push.
      if e = .look .reader ∧ s.unsaved = false then none
      else (s.store.step s.queue e).map (s.saved e)
  | .line (.push _) => none
  | .line e =>
      (s.link.step e).bind fun link ↦
        -- `Pop` waits for the lock.
        if s.store.locked = true ∧ link.sender.queue ≠ s.queue then none
        else some { s with link := link }
  | .restart => some s.restarted

/-- Every packet pushed fits into the file, and while one thread is in `SaveData` the other
does not enter it. -/
def Ordinary (s : Station) : Event → Prop
  | .push data => Storable data
  | .save (.look who) => s.store.point who.other = .outside
  | _ => True

/-- No call of `write` is cut short, and the program is not stopped while it has the file
open. -/
def Unbroken (s : Station) : Event → Prop
  | .save (.write who count) => s.store.fails (.write who count) = false
  | .restart => s.store.busy = false
  | _ => True

instance (s : Station) : ∀ e, Decidable (s.Ordinary e)
  | .push data => inferInstanceAs (Decidable (Storable data))
  | .save (.look who) => inferInstanceAs (Decidable (s.store.point who.other = .outside))
  | .save (.openFile _ _) => isTrue trivial
  | .save (.lock _) => isTrue trivial
  | .save (.write _ _) => isTrue trivial
  | .save (.close _) => isTrue trivial
  | .line _ => isTrue trivial
  | .restart => isTrue trivial

instance (s : Station) : ∀ e, Decidable (s.Unbroken e)
  | .push _ => isTrue trivial
  | .save (.look _) => isTrue trivial
  | .save (.openFile _ _) => isTrue trivial
  | .save (.lock _) => isTrue trivial
  | .save (.write who count) =>
      inferInstanceAs (Decidable (s.store.fails (.write who count) = false))
  | .save (.close _) => isTrue trivial
  | .line _ => isTrue trivial
  | .restart => inferInstanceAs (Decidable (s.store.busy = false))

/-- No two packets pushed share a data number, unless they are the same. -/
def Identified (pushed : List Packet) : Prop :=
  ∀ p ∈ pushed, ∀ q ∈ pushed, p.getDataNo = q.getDataNo → p.strCache = q.strCache

instance (pushed : List Packet) : Decidable (Identified pushed) := by
  unfold Identified
  infer_instance

/-! ## The journal behind the station -/

/-- What the server has, and what is not meant for it. -/
def settled (s : Station) : Set (List Byte) :=
  {c | c ∈ contents s.link.received ∨ Link.isMeasurement ⟨c, []⟩ = false}

def view (s : Station) : Journal.State (List Byte) :=
  ⟨contents s.queue, contents (load s.store.file []), s.store.busy, s.unsaved, s.torn,
    {c | c ∈ s.stored}, s.settled⟩

/-- What the file holds when a thread is there. -/
def At (s : Station) : SavePoint → Prop
  | .opened => s.store.file = some []
  | .writing place todo => ∃ written, s.store.file = some written ∧ place = written.length ∧
      written ++ todo.flatten = save s.queue
  | _ => True

/-- At most one thread is in `SaveData`. -/
def Alone (s : Station) : Prop :=
  ∃ who : Saver, s.store.point who.other = .outside ∧ s.At (s.store.point who)

/-- Every packet anywhere in the station or on the line was pushed, and fits the file. -/
structure Known (s : Station) : Prop where
  line : s.link.Honest
  numbers : (s.queue.map Packet.getDataNo).Nodup
  pushed : ∀ p ∈ s.link.appended, Storable p
  waiting : ∀ p ∈ s.queue, p.strCache ∈ contents s.link.appended
  sent : ∀ t ∈ s.link.line, t.packet.strCache ∈ contents s.link.appended
  filed : ∀ c ∈ contents (load s.store.file []), c ∈ contents s.link.appended
  alone : s.Alone

theorem storable_of_mem_contents {pushed : List Packet} (hpushed : ∀ p ∈ pushed, Storable p)
    {p : Packet} (hp : p.strCache ∈ contents pushed) :
    Storable p ∧ ∃ q ∈ pushed, q.strCache = p.strCache ∧ q.getDataNo = p.getDataNo := by
  obtain ⟨q, hq, heq⟩ := List.mem_map.mp hp
  have hstorable := hpushed q hq
  rw [Storable, Packet.getSize, heq] at hstorable
  exact ⟨hstorable, q, hq, heq,
    Packet.getDataNo_congr heq (length_ge_of_isFrameCRCOK hstorable.1)⟩

theorem isMeasurement_contents (p : Packet) :
    Link.isMeasurement ⟨p.strCache, []⟩ = Link.isMeasurement p := by
  rw [Link.isMeasurement, Link.isMeasurement,
    Packet.frameCommandType_congr (show (Packet.mk p.strCache []).strCache = p.strCache from rfl)]

theorem known_start (file : Option (List Byte)) : Known (start file) where
  line := ⟨Sender.serves_of_outside rfl, by simp [Link.Wired, Link.line, start], by simp [start],
    by simp [start, offDuty]⟩
  numbers := (load_wellFormed file).2
  pushed := (load_wellFormed file).1
  waiting := fun _ hp ↦ List.mem_map_of_mem hp
  sent := by simp [Link.line, start]
  filed := fun _ hc ↦ hc
  alone := ⟨.reader, rfl, trivial⟩

variable {s s' : Station}

theorem Known.storable (h : Known s) : ∀ p ∈ s.queue, Storable p :=
  fun p hp ↦ (storable_of_mem_contents h.pushed (h.waiting p hp)).1

/-! ## At most one thread saves -/

theorem Alone.at (h : s.Alone) {who : Saver} (hin : s.store.point who ≠ .outside) :
    s.store.point who.other = .outside ∧ s.At (s.store.point who) := by
  obtain ⟨w, hother, hat⟩ := h
  rcases who.eq_or_eq_other w with rfl | rfl
  · exact ⟨hother, hat⟩
  · rw [Saver.other_other] at hother
    exact absurd hother hin

/-- Until the thread that truncated the file takes the lock, the file stays empty. -/
theorem Alone.emptied (h : s.Alone) (hbusy : s.store.busy = true) (hfree : s.store.locked = false) :
    s.store.file = some [] := by
  obtain ⟨who, hother, hat⟩ := h
  rw [Store.busy_eq _ who, hother] at hbusy
  rw [Store.locked_eq _ who] at hfree
  cases hpoint : s.store.point who with
  | outside => rw [hpoint] at hbusy; cases hbusy
  | found => rw [hpoint] at hbusy; cases hbusy
  | opened => rwa [hpoint] at hat
  | writing place todo => rw [hpoint] at hfree; cases hfree

/-- Under the lock the queue does not change. -/
theorem Alone.withLink (h : s.Alone) (link : Link) (unsaved : Bool)
    (hfree : s.store.locked = true → link.sender.queue = s.queue) :
    Alone { s with link := link, unsaved := unsaved } := by
  obtain ⟨who, hother, hat⟩ := h
  refine ⟨who, hother, ?_⟩
  cases hpoint : s.store.point who with
  | outside => trivial
  | found => trivial
  | opened => rwa [hpoint] at hat
  | writing place todo =>
      rw [hpoint] at hat
      have hlocked : s.store.locked = true := by rw [Store.locked_eq _ who, hpoint]; rfl
      change ∃ written, _ ∧ _ ∧ _ = save link.sender.queue
      rw [hfree hlocked]
      exact hat

/-! ## Pushes, restarts and the line -/

theorem Known.moved (h : Known s) {link : Link} (hhonest : link.Honest)
    (hmoved : s.link.Moved link)
    (hfree : s.store.locked = true → link.sender.queue = s.queue) :
    Known { s with link := link } where
  line := hhonest
  numbers := by
    rcases hmoved.queue with hqueue | ⟨p, hqueue, -⟩
    · rw [queue, hqueue]
      exact h.numbers
    · have hnumbers := h.numbers
      rw [queue, hqueue] at hnumbers
      exact (List.nodup_cons.mp hnumbers).2
  pushed := by
    rw [hmoved.appended]
    exact h.pushed
  waiting := by
    rw [hmoved.appended]
    intro p hp
    refine h.waiting p ?_
    rcases hmoved.queue with hqueue | ⟨q, hqueue, -⟩
    · rw [queue, ← hqueue]
      exact hp
    · rw [queue, hqueue]
      exact List.mem_cons_of_mem q hp
  sent := by
    rw [hmoved.appended]
    intro t ht
    rcases hmoved.sources t ht with hwaits | hold
    · exact h.waiting t.packet hwaits
    · exact h.sent t hold
  filed := by
    rw [hmoved.appended]
    exact h.filed
  alone := h.alone.withLink link s.unsaved hfree

/-- A packet with a new number is appended, and one with a known number is not. -/
theorem Known.push (h : Known s) {data : Packet} (hdata : Storable data)
    (hfree : s.store.locked = false) {link : Link}
    (hstep : s.link.step (.push data) = some link) :
    Known { s with link := link, unsaved := true } := by
  have halone := h.alone.withLink link true fun hlocked ↦
    Bool.noConfusion (hfree.symm.trans hlocked)
  obtain rfl := Option.some.inj hstep
  rcases push_cases s.link.sender.queue data with heq | ⟨heq, -, hfresh⟩
  · simp only [heq, List.drop_length, List.append_nil] at halone ⊢
    exact ⟨h.line, h.numbers, h.pushed, h.waiting, h.sent, h.filed, halone⟩
  · have hnumbers := push_nodup data h.numbers
    rw [queue, heq] at hnumbers
    have hgrown : ∀ c, c ∈ contents s.link.appended → c ∈ contents (s.link.appended ++ [data]) :=
      fun c hc ↦ List.map_subset _ (List.subset_append_left _ _) hc
    simp only [heq, List.drop_left] at halone ⊢
    refine ⟨⟨fun packet hp ↦ ?_, h.line.wired, h.line.answers, h.line.judged⟩, hnumbers,
      fun p hp ↦ ?_, fun p hp ↦ ?_, fun t ht ↦ hgrown _ (h.sent t ht),
      fun c hc ↦ hgrown c (h.filed c hc), halone⟩
    · obtain ⟨hhead, hcmd⟩ := h.line.serves packet hp
      exact ⟨by simp [List.head?_append, hhead], hcmd⟩
    · rcases List.mem_append.mp hp with hp | hp
      · exact h.pushed p hp
      · rwa [List.mem_singleton.mp hp]
    · rcases List.mem_append.mp hp with hp | hp
      · exact hgrown _ (h.waiting p hp)
      · rw [List.mem_singleton.mp hp]
        exact List.mem_map_of_mem (List.mem_append_right _ List.mem_cons_self)

theorem Known.restarted (h : Known s) : Known s.restarted where
  line := h.line.reconnected rfl
  numbers := (load_wellFormed s.store.file).2
  pushed := h.pushed
  waiting := fun _ hp ↦ h.filed _ (List.mem_map_of_mem hp)
  sent := fun t ht ↦ h.sent t (Link.mem_line_reconnected ht)
  filed := h.filed
  alone := ⟨.reader, rfl, trivial⟩

/-- A packet that was acknowledged or is no measurement is settled: the server has a
packet with its number, and so with its contents. -/
theorem Known.settled_of_popped (h : Known s) (hidentified : Identified s.link.appended)
    {p : Packet} (hp : p ∈ s.queue) (hwhy : s.link.Got p.getDataNo ∨ Link.isMeasurement p = false) :
    p.strCache ∈ s.settled := by
  rcases hwhy with ⟨r, hr, hno⟩ | hnot
  · refine Or.inl ?_
    obtain ⟨t, ht, rfl⟩ := List.mem_map.mp hr
    obtain ⟨-, p', hp', hpcache, hpno⟩ := storable_of_mem_contents h.pushed (h.waiting p hp)
    obtain ⟨-, r', hr', hrcache, hrno⟩ :=
      storable_of_mem_contents h.pushed (h.sent t (List.mem_append_right _ ht))
    have hsame := hidentified r' hr' p' hp' (by rw [hrno, hpno, hno])
    rw [← hpcache, ← hsame, hrcache]
    exact List.mem_map_of_mem hr
  · exact Or.inr ((isMeasurement_contents p).trans hnot)

open Relation (ReflTransGen)
open Journal (State)

variable {careful : Bool}

theorem Known.steps_moved (h : Known s) (hidentified : Identified s.link.appended) {link : Link}
    (hmoved : s.link.Moved link)
    (hfree : s.store.locked = true → link.sender.queue = s.queue) :
    ReflTransGen (Journal.Step careful) s.view (view { s with link := link }) := by
  have hmore : s.settled ⊆ settled { s with link := link } :=
    fun c hc ↦ hc.imp_left fun hgot ↦ List.map_subset _ hmoved.received hgot
  refine .head (.settle _ hmore) ?_
  rcases hmoved.queue with hqueue | ⟨p, hqueue, hwhy⟩
  · have hview : view { s with link := link } =
        { s.view with settled := settled { s with link := link } } := by
      simp only [view, queue, hqueue]
    rw [hview]
  · have hp : p ∈ s.queue := by rw [queue, hqueue]; exact List.mem_cons_self
    have hcontents : contents s.queue = p.strCache :: contents link.sender.queue := by
      rw [queue, hqueue]
      rfl
    refine .single (.remove p.strCache (contents link.sender.queue) hcontents
      (hmore (h.settled_of_popped hidentified hp hwhy)) fun hbusy ↦ ?_)
    -- The packet is gone, so no thread has the lock.
    have hunlocked : s.store.locked = false := by
      by_contra hlocked
      have hsame := hfree (by simpa using hlocked)
      rw [queue, hqueue] at hsame
      exact List.cons_ne_self p _ hsame.symm
    change contents (load s.store.file []) = []
    rw [h.alone.emptied hbusy hunlocked]
    rfl

theorem steps_push {data : Packet} (hsaved : s.unsaved = false) {link : Link}
    (hstep : s.link.step (.push data) = some link) :
    ReflTransGen (Journal.Step careful) s.view
      (view { s with link := link, unsaved := true }) := by
  obtain rfl := Option.some.inj hstep
  rcases push_cases s.link.sender.queue data with heq | ⟨heq, -, -⟩
  · simp only [heq, List.drop_length, List.append_nil]
    exact .single .refuse
  · simp only [heq, List.drop_left]
    have hqueue : contents s.queue ++ [data.strCache] = contents (s.queue ++ [data]) := by
      rw [contents, contents, List.map_append, List.map_singleton]
    change ReflTransGen _ _ { s.view with queue := contents (s.queue ++ [data]), unsaved := true }
    rw [← hqueue]
    exact .single (.append data.strCache hsaved)

/-! ## `SaveData` -/

/-- The state behind a step in `SaveData`, with what the journal does meanwhile. -/
structure Follows (careful : Bool) (s s' : Station) : Prop where
  known : Known s'
  steps : ReflTransGen (Journal.Step careful) s.view s'.view

/-- What is in the file during a save is a beginning of the queue. -/
theorem Known.kept (h : Known s) {written : List Byte} (hbytes : written <+: save s.queue) :
    contents (load (some written) []) <+: contents s.queue :=
  load_prefix_save h.storable h.numbers hbytes

section

variable {e : SaveEvent} {who : Saver} {store : Store} {p : SavePoint}

theorem view_saved (hwho : e.who = who) (hpoint : store.point = (s.store.moveTo who p).point)
    (hother : s.store.point who.other = .outside) : (s.saved e store).view = { s.view with
      file := contents (load store.file [])
      copying := p.isOpen
      unsaved := (p != .outside || e.who != .reader) && s.unsaved
      torn := (s.saved e store).torn
      stored := {c | c ∈ (s.saved e store).stored} } := by
  subst hwho
  have hbusy : store.busy = p.isOpen := by
    rw [Store.busy_eq _ e.who, hpoint, Store.moveTo_self, Store.moveTo_other, hother]
    exact Bool.or_false _
  have hunsaved : (s.saved e store).unsaved =
      ((p != .outside || e.who != .reader) && s.unsaved) := by
    change ((store.point .reader != .outside || e.who != .reader) && s.unsaved) = _
    rw [hpoint]
    cases hwho : e.who with
    | reader => rw [Store.moveTo_self]
    | shutdown => rw [show (Saver.shutdown != .reader) = true from rfl, Bool.or_true, Bool.or_true]
  rw [← hbusy, ← hunsaved]
  rfl

/-- A thread moves on while the other is outside. -/
theorem Known.follows (h : Known s) (hwho : e.who = who)
    (hpoint : store.point = (s.store.moveTo who p).point)
    (hother : s.store.point who.other = .outside) (hat : (s.saved e store).At p)
    (hfile : store.file = s.store.file ∨ contents (load store.file []) <+: contents s.queue)
    (hsteps : ReflTransGen (Journal.Step careful) s.view { s.view with
      file := contents (load store.file [])
      copying := p.isOpen
      unsaved := (p != .outside || e.who != .reader) && s.unsaved
      torn := (s.saved e store).torn
      stored := {c | c ∈ (s.saved e store).stored} }) :
    Follows careful s (s.saved e store) := by
  rw [← view_saved hwho hpoint hother] at hsteps
  refine ⟨⟨h.line, h.numbers, h.pushed, h.waiting, h.sent, fun c hc ↦ ?_, who, ?_, ?_⟩, hsteps⟩
  · rcases hfile with hsame | hkept
    · exact h.filed c (hsame ▸ hc)
    · obtain ⟨q, hq, rfl⟩ := List.mem_map.mp (hkept.subset hc)
      exact h.waiting q hq
  · change store.point _ = _
    rw [hpoint, Store.moveTo_other, hother]
  · change At _ (store.point _)
    rw [hpoint, Store.moveTo_self]
    exact hat

end

theorem copying_eq {who : Saver} (hother : s.store.point who.other = .outside) :
    s.view.copying = (s.store.point who).isOpen := by
  change s.store.busy = _
  rw [Store.busy_eq _ who, hother]
  exact Bool.or_false _

theorem Known.spare (h : Known s) {who : Saver} (hpoint : s.store.point who = .outside)
    (hqueue : s.queue = []) : Follows careful s (s.saved (.look who) s.store) := by
  refine ⟨⟨h.line, h.numbers, h.pushed, h.waiting, h.sent, h.filed, h.alone⟩, ?_⟩
  cases who with
  | reader =>
      have hview : (s.saved (.look .reader) s.store).view = { s.view with unsaved := false } := by
        change State.mk _ _ _ ((s.store.point .reader != .outside || false) && s.unsaved) _ _ _ = _
        rw [hpoint]
        rfl
      rw [hview]
      exact .single (.spare (by rw [view, hqueue]; rfl))
  | shutdown =>
      have hview : (s.saved (.look .shutdown) s.store).view = s.view := by
        change State.mk _ _ _ ((s.store.point .reader != .outside || true) && s.unsaved) _ _ _ = _
        rw [Bool.or_true]
        rfl
      rw [hview]

theorem Known.find (h : Known s) {who : Saver} (hpoint : s.store.point who = .outside)
    (hother : s.store.point who.other = .outside) :
    Follows careful s (s.saved (.look who) (s.store.moveTo who .found)) := by
  have hidle := copying_eq hother
  rw [hpoint] at hidle
  refine h.follows rfl rfl hother trivial (Or.inl rfl) ?_
  rw [show SavePoint.found.isOpen = s.view.copying from hidle.symm]
  exact .refl

theorem Known.miss (h : Known s) {who : Saver} (hpoint : s.store.point who = .found) :
    Follows careful s (s.saved (.openFile who false) (s.store.moveTo who .outside)) := by
  obtain ⟨hother, -⟩ := h.alone.at (by rw [hpoint]; exact SavePoint.noConfusion)
  have hidle := copying_eq hother
  rw [hpoint] at hidle
  refine h.follows rfl rfl hother trivial (Or.inl rfl) ?_
  rw [show SavePoint.outside.isOpen = s.view.copying from hidle.symm]
  exact .single (.miss _)

theorem Known.truncate (h : Known s) {who : Saver} (hpoint : s.store.point who = .found) :
    Follows careful s (s.saved (.openFile who true)
      { s.store.moveTo who .opened with file := some [] }) := by
  obtain ⟨hother, -⟩ := h.alone.at (by rw [hpoint]; exact SavePoint.noConfusion)
  exact h.follows (p := .opened) rfl rfl hother rfl (Or.inr List.nil_prefix) (.single .truncate)

theorem Known.lock (h : Known s) {who : Saver} (hpoint : s.store.point who = .opened) :
    Follows careful s (s.saved (.lock who) (s.store.moveTo who (.writing 0 (pieces s.queue)))) := by
  obtain ⟨hother, hat⟩ := h.alone.at (by rw [hpoint]; exact SavePoint.noConfusion)
  have hbusy := copying_eq hother
  rw [hpoint] at hat hbusy
  refine h.follows rfl rfl hother ⟨[], hat, rfl, flatten_pieces s.queue⟩ (Or.inl rfl) ?_
  rw [show (SavePoint.writing 0 (pieces s.queue)).isOpen = s.view.copying from hbusy.symm]
  exact .refl

section

variable {who : Saver} {written piece : List Byte} {todo : List (List Byte)} {count : ℕ}

theorem wrote_file (hfile : s.store.file = some written) :
    (s.store.wrote who written.length piece todo count).file =
      some (written ++ piece.take count) := by
  rw [Store.wrote, hfile, Option.getD_some, writeAt_end]

/-- A call of `write` that takes too little ends the save. -/
theorem Known.cutShort (h : Known s) (hother : s.store.point who.other = .outside)
    (hpoint : s.store.point who = .writing written.length (piece :: todo))
    (hfile : s.store.file = some written)
    (hbytes : written ++ (piece :: todo).flatten = save s.queue) (hcut : count < piece.length) :
    Follows false s (s.saved (.write who count)
      (s.store.wrote who written.length piece todo count)) := by
  have hbusy := copying_eq hother
  rw [hpoint] at hbusy
  have hwrites : (s.store.wrote who written.length piece todo count).point =
      (s.store.moveTo who .outside).point := by
    rw [Store.wrote, if_pos hcut]
  have htorn : (s.saved (.write who count)
      (s.store.wrote who written.length piece todo count)).torn = true := by
    simp [Station.saved, Store.fails, hpoint, hcut]
  have hkept : contents (load (some (written ++ piece.take count)) []) <+: contents s.queue := by
    have hpart : written ++ piece.take count <+: written ++ piece :=
      (List.prefix_append_right_inj written).mpr (List.take_prefix count piece)
    have hbefore : written ++ piece <+: save s.queue := by
      refine ⟨todo.flatten, ?_⟩
      rw [List.append_assoc, ← List.flatten_cons]
      exact hbytes
    exact h.kept (hpart.trans hbefore)
  refine h.follows rfl hwrites hother trivial (Or.inr (wrote_file hfile ▸ hkept)) ?_
  rw [wrote_file hfile, htorn]
  exact .head (.extend _ hbusy hkept) (.single (.finish _ true _ hbusy
    (fun hwhole ↦ Bool.noConfusion hwhole) (fun hcareful ↦ Bool.noConfusion hcareful)
    Set.subset_union_left))

theorem Known.wrote (h : Known s) (hother : s.store.point who.other = .outside)
    (hpoint : s.store.point who = .writing written.length (piece :: todo))
    (hfile : s.store.file = some written)
    (hbytes : written ++ (piece :: todo).flatten = save s.queue) (hwhole : piece.length ≤ count) :
    Follows careful s (s.saved (.write who count)
      (s.store.wrote who written.length piece todo count)) := by
  have hbusy := copying_eq hother
  rw [hpoint] at hbusy
  have hwrites : (s.store.wrote who written.length piece todo count).point =
      (s.store.moveTo who (.writing (written.length + piece.length) todo)).point := by
    rw [Store.wrote, if_neg (Nat.not_lt.mpr hwhole)]
  have htorn : (s.saved (.write who count)
      (s.store.wrote who written.length piece todo count)).torn = s.torn := by
    simp [Station.saved, Store.fails, hpoint, hwhole]
  have hafter : (s.store.wrote who written.length piece todo count).file =
      some (written ++ piece) := by
    rw [wrote_file hfile, List.take_of_length_le hwhole]
  have hrest : (written ++ piece) ++ todo.flatten = save s.queue := by
    rw [List.append_assoc, ← List.flatten_cons]
    exact hbytes
  have hkept : contents (load (some (written ++ piece)) []) <+: contents s.queue :=
    h.kept ⟨todo.flatten, hrest⟩
  refine h.follows rfl hwrites hother ⟨_, hafter, by rw [List.length_append], hrest⟩
    (Or.inr (hafter ▸ hkept)) ?_
  rw [hafter, htorn, show (SavePoint.writing (written.length + piece.length) todo).isOpen =
    s.view.copying from hbusy.symm]
  exact .single (.extend _ hbusy hkept)

end

theorem Known.close (h : Known s) {who : Saver} {place : ℕ}
    (hpoint : s.store.point who = .writing place []) :
    Follows careful s (s.saved (.close who) (s.store.moveTo who .outside)) := by
  obtain ⟨hother, hat⟩ := h.alone.at (by rw [hpoint]; exact SavePoint.noConfusion)
  have hbusy := copying_eq hother
  rw [hpoint] at hat hbusy
  obtain ⟨written, hfile, -, hbytes⟩ := hat
  rw [List.flatten_nil, List.append_nil] at hbytes
  have hall : contents (load s.store.file []) = contents s.queue := by
    rw [hfile, hbytes]
    exact Program.load_save_contents h.storable h.numbers
  refine h.follows rfl rfl hother trivial (Or.inl rfl) (.single ?_)
  refine .finish _ false _ hbusy (fun _ ↦ hall) (fun _ ↦ rfl) fun c hc ↦ ?_
  refine (List.mem_append.mp hc).imp_right fun hnew ↦ ?_
  change c ∈ contents (load s.store.file [])
  rwa [hall]

/-- Every step in `SaveData`. -/
theorem Known.saveData (h : Known s) {e : SaveEvent} {store : Store}
    (hmoves : Store.Moves s.queue s.store e store) (hordinary : s.Ordinary (.save e))
    (hcareful : careful = true → s.Unbroken (.save e)) : Follows careful s (s.saved e store) := by
  cases hmoves with
  | spare who hpoint hqueue => exact h.spare hpoint hqueue
  | find who hpoint hqueue => exact h.find hpoint hordinary
  | miss who hpoint => exact h.miss hpoint
  | truncate who hpoint => exact h.truncate hpoint
  | lock who hpoint hfree => exact h.lock hpoint
  | write who place piece todo count hpoint =>
      obtain ⟨hother, hat⟩ := h.alone.at (by rw [hpoint]; exact SavePoint.noConfusion)
      rw [hpoint] at hat
      obtain ⟨written, hfile, rfl, hbytes⟩ := hat
      by_cases hcut : count < piece.length
      · obtain rfl : careful = false := by
          by_contra htrue
          have hfails : s.store.fails (.write who count) = false := hcareful (by simpa using htrue)
          simp [Store.fails, hpoint, hcut] at hfails
        exact h.cutShort hother hpoint hfile hbytes hcut
      · exact h.wrote hother hpoint hfile hbytes (Nat.le_of_not_lt hcut)
  | close who place hpoint => exact h.close hpoint

/-! ## Whole runs -/

/-- Everything a step can do. -/
theorem step_cases {e : Event} (hstep : s.step e = some s') :
    (∃ data link, e = .push data ∧ s.unsaved = false ∧ s.store.locked = false ∧
      s.link.step (.push data) = some link ∧ s' = { s with link := link, unsaved := true }) ∨
    (∃ event store, e = .save event ∧ Store.Moves s.queue s.store event store ∧
      s' = s.saved event store) ∨
    (∃ event link, (∀ data, event ≠ .push data) ∧ s.link.step event = some link ∧
      (s.store.locked = true → link.sender.queue = s.queue) ∧ s' = { s with link := link }) ∨
    e = .restart ∧ s' = s.restarted := by
  cases e with
  | push data =>
      simp only [step, Option.ite_none_left_eq_some, not_or, Bool.not_eq_true] at hstep
      obtain ⟨⟨hsaved, hfree, -⟩, heq⟩ := hstep
      obtain ⟨link, hlink, rfl⟩ := Option.map_eq_some_iff.mp heq
      exact Or.inl ⟨data, link, rfl, hsaved, hfree, hlink, rfl⟩
  | save event =>
      simp only [step, Option.ite_none_left_eq_some] at hstep
      obtain ⟨store, hstore, rfl⟩ := Option.map_eq_some_iff.mp hstep.2
      exact Or.inr (Or.inl ⟨event, store, rfl, Store.moves_of_step hstore, rfl⟩)
  | line event =>
      refine Or.inr (Or.inr (Or.inl ?_))
      cases event with
      | push data => cases hstep
      | _ =>
        simp only [step, Option.bind_eq_some_iff, Option.ite_none_left_eq_some] at hstep
        obtain ⟨link, hlink, hfree, heq⟩ := hstep
        refine ⟨_, link, by simp, hlink, fun hlocked ↦ ?_, (Option.some.inj heq).symm⟩
        by_contra hchanged
        exact hfree ⟨hlocked, hchanged⟩
  | restart => exact Or.inr (Or.inr (Or.inr ⟨rfl, (Option.some.inj hstep).symm⟩))

/-- What has been pushed stays in the log, also across restarts. -/
theorem appended_subset {e : Event} (hstep : s.step e = some s') :
    s.link.appended ⊆ s'.link.appended := by
  rcases step_cases hstep with ⟨data, link, -, -, -, hlink, rfl⟩ | ⟨event, store, -, -, rfl⟩ |
    ⟨event, link, -, hlink, -, rfl⟩ | ⟨-, rfl⟩
  · exact (Link.appended_grows hlink).subset
  · exact List.Subset.refl _
  · exact (Link.appended_grows hlink).subset
  · exact List.Subset.refl _

theorem Identified.of_subset {pushed more : List Packet} (h : Identified more)
    (hsub : pushed ⊆ more) : Identified pushed :=
  fun p hp q hq ↦ h p (hsub hp) q (hsub hq)

theorem Known.step (h : Known s) {e : Event} (hordinary : s.Ordinary e)
    (hstep : s.step e = some s') : Known s' := by
  rcases step_cases hstep with ⟨data, link, rfl, -, hfree, hlink, rfl⟩ |
    ⟨event, store, rfl, hmoves, rfl⟩ | ⟨event, link, hnot, hlink, hfree, rfl⟩ | ⟨rfl, rfl⟩
  · exact h.push hordinary hfree hlink
  · have hfollows : Follows false s (s.saved event store) :=
      h.saveData hmoves hordinary fun hcareful ↦ Bool.noConfusion hcareful
    exact hfollows.known
  · obtain ⟨hhonest, hmoves⟩ := h.line.step hlink hnot
    exact h.moved hhonest hmoves.moved hfree
  · exact h.restarted

/-- The station follows the journal. -/
theorem Known.steps (h : Known s) {e : Event} (hordinary : s.Ordinary e)
    (hcareful : careful = true → s.Unbroken e) (hstep : s.step e = some s')
    (hidentified : Identified s.link.appended) :
    ReflTransGen (Journal.Step careful) s.view s'.view := by
  rcases step_cases hstep with ⟨data, link, rfl, hsaved, -, hlink, rfl⟩ |
    ⟨event, store, rfl, hmoves, rfl⟩ | ⟨event, link, hnot, hlink, hfree, rfl⟩ | ⟨rfl, rfl⟩
  · exact steps_push hsaved hlink
  · exact (h.saveData hmoves hordinary hcareful).steps
  · exact h.steps_moved hidentified (h.line.step hlink hnot).2.moved hfree
  · exact .single (.recover hcareful)

structure Sound (careful : Bool) (s : Station) : Prop where
  known : Known s
  journal : Journal.Inv s.view
  safe : careful = true → Journal.Safe s.view

theorem sound_start (careful : Bool) (file : Option (List Byte)) : Sound careful (start file) :=
  ⟨known_start file, Journal.inv_of_recovered rfl, fun _ _ hc ↦ Or.inr ⟨hc, fun _ ↦ hc⟩⟩

theorem Sound.step (h : Sound careful s) {e : Event} (hordinary : s.Ordinary e)
    (hcareful : careful = true → s.Unbroken e) (hstep : s.step e = some s')
    (hidentified : Identified s.link.appended) : Sound careful s' := by
  have hsteps := h.known.steps hordinary hcareful hstep hidentified
  refine ⟨h.known.step hordinary hstep, h.journal.steps hsteps, ?_⟩
  rintro rfl
  exact (h.safe rfl).steps hsteps

theorem sound_of_reaches {file : Option (List Byte)} {guard : Station → Event → Prop}
    (hreach : Transition.Reaches step guard (start file) s)
    (hguard : ∀ s e, guard s e → s.Ordinary e ∧ (careful = true → s.Unbroken e))
    (hidentified : Identified s.link.appended) : Sound careful s := by
  refine hreach.invariant (fun s ↦ Identified s.link.appended → Sound careful s) ?_
    (fun _ ↦ sound_start careful file) hidentified
  intro s e s' hs he hstep hafter
  have hbefore : Identified s.link.appended := hafter.of_subset (appended_subset hstep)
  exact (hs hbefore).step (hguard s e he).1 (hguard s e he).2 hstep hbefore

/-- The first measurement is saved and delivered, the second is pushed but not yet saved. -/
def pushedBehindDelivered : List Event :=
  [.push (sampleFrame 1), .save (.look .reader), .save (.openFile .reader true),
    .save (.lock .reader), .save (.write .reader 4), .save (.write .reader 5000),
    .save (.close .reader), .push (sampleFrame 2), .line (.call ⟨5, true⟩),
    .line (.send Sender.silence 0 .again), .line (.send Sender.silence 0 .again),
    .line .receive, .line (.answer ⟨true, 0x01#8, letters 'r' 'a', 1⟩),
    .line (.send Sender.silence 1 .again), .line (.send Sender.silence 0 .again)]

/-- A measurement is saved, the program is started again, and the reader is about to save
the next one too. -/
def restartedBehindSave : List Event :=
  [.push (sampleFrame 1), .save (.look .reader), .save (.openFile .reader true),
    .save (.lock .reader), .save (.write .reader 4), .save (.write .reader 5000),
    .save (.close .reader), .restart, .push (sampleFrame 2), .save (.look .reader)]

end Station

end DeviceAgent
