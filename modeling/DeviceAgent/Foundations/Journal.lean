import Mathlib

/-!
# A queue with a copy on disk

Items are appended at the end of a queue and removed at its front once they are settled.
The queue is copied to a file, item by item into a file that was emptied first, and a recovery
starts again from what the file holds.  Outside a copy the file holds the waiting items in
order, behind settled ones and but for the last item appended; during a copy it holds a
beginning of the queue.
-/

namespace Journal

variable {α : Type*}

structure State (α : Type*) where
  queue : List α
  file : List α
  /-- A copy is being made. -/
  copying : Bool
  /-- An item may have been appended since the queue was last copied. -/
  unsaved : Bool
  /-- The last copy may have been cut short or not have been made. -/
  torn : Bool
  /-- The items that whole copies have been made of. -/
  stored : Set α
  settled : Set α

/-- Careful steps cut no copy short, and do not recover during one. -/
inductive Step (careful : Bool) (s : State α) : State α → Prop
  | append (a : α) (hsaved : s.unsaved = false) :
      Step careful s { s with queue := s.queue ++ [a], unsaved := true }
  | refuse : Step careful s { s with unsaved := true }
  | remove (a : α) (rest : List α) (hqueue : s.queue = a :: rest) (hsettled : a ∈ s.settled)
      (hfree : s.copying = true → s.file = []) : Step careful s { s with queue := rest }
  | settle (settled : Set α) (hmore : s.settled ⊆ settled) :
      Step careful s { s with settled := settled }
  | truncate : Step careful s { s with file := [], copying := true }
  | extend (kept : List α) (hcopying : s.copying = true) (hkept : kept <+: s.queue) :
      Step careful s { s with file := kept }
  | finish (unsaved torn : Bool) (stored : Set α) (hcopying : s.copying = true)
      (hwhole : torn = false → s.file = s.queue) (hcareful : careful = true → torn = false)
      (hstored : stored ⊆ s.stored ∪ {a | a ∈ s.file}) : Step careful s { s with
        copying := false, unsaved := unsaved, torn := torn, stored := stored }
  /-- No copy could be begun. -/
  | miss (unsaved : Bool) : Step careful s { s with unsaved := unsaved, torn := true }
  /-- An empty queue is not copied. -/
  | spare (hqueue : s.queue = []) : Step careful s { s with unsaved := false }
  | recover (hcareful : careful = true → s.copying = false) : Step careful s { s with
      queue := s.file, copying := false, unsaved := false, torn := false }

/-- The file begins with items that have left the queue, all settled, and the queue ends
with items that are not in the file. -/
def Split (s : State α) : Prop :=
  ∃ gone kept fresh, s.file = gone ++ kept ∧ s.queue = kept ++ fresh ∧
    (∀ a ∈ gone, a ∈ s.settled) ∧ (s.torn = false → fresh.length ≤ s.unsaved.toNat)

structure Inv (s : State α) : Prop where
  idle : s.copying = false → Split s
  busy : s.copying = true → s.file <+: s.queue

/-- What was stored waits in the queue, and outside a copy also in the file, until it is
settled. -/
def Safe (s : State α) : Prop :=
  ∀ a ∈ s.stored, a ∈ s.settled ∨ a ∈ s.queue ∧ (s.copying = false → a ∈ s.file)

variable {careful : Bool} {s s' : State α}

theorem inv_of_recovered (hqueue : s.queue = s.file) : Inv s where
  idle := fun _ ↦ ⟨[], s.file, [], rfl, by rw [hqueue, List.append_nil], by simp,
    fun _ ↦ Nat.zero_le _⟩
  busy := fun _ ↦ by rw [hqueue]

theorem Split.remove (h : Split s) {a : α} {rest : List α} (hhead : s.queue = a :: rest)
    (hsettled : a ∈ s.settled) : Split { s with queue := rest } := by
  obtain ⟨gone, kept, fresh, hfile, hqueue, hgone, hfresh⟩ := h
  cases kept with
  | nil =>
      obtain rfl : fresh = a :: rest := hqueue.symm.trans hhead
      exact ⟨gone, [], rest, hfile, rfl, hgone,
        fun hwhole ↦ (Nat.le_succ _).trans (hfresh hwhole)⟩
  | cons b kept =>
      obtain ⟨rfl, rfl⟩ := List.cons.inj (hqueue.symm.trans hhead)
      refine ⟨gone ++ [b], kept, fresh, by simp [hfile], rfl, fun c hc ↦ ?_, hfresh⟩
      rcases List.mem_append.mp hc with hc | hc
      · exact hgone c hc
      · rwa [List.mem_singleton.mp hc]

theorem Split.append (h : Split s) (a : α) (hsaved : s.unsaved = false) :
    Split { s with queue := s.queue ++ [a], unsaved := true } := by
  obtain ⟨gone, kept, fresh, hfile, hqueue, hgone, hfresh⟩ := h
  refine ⟨gone, kept, fresh ++ [a], hfile, by simp [hqueue], hgone, fun hwhole ↦ ?_⟩
  have hnone : fresh.length ≤ 0 := by simpa [hsaved] using hfresh hwhole
  rw [List.length_append]
  exact Nat.succ_le_succ hnone

/-- Behind a copy the file is a beginning of the queue, or all of it. -/
theorem Inv.split_of_copied (h : Inv s) (hcopying : s.copying = true) {unsaved torn : Bool}
    {stored : Set α} (hwhole : torn = false → s.file = s.queue) :
    Split { s with copying := false, unsaved := unsaved, torn := torn, stored := stored } := by
  obtain ⟨fresh, hqueue⟩ := h.busy hcopying
  refine ⟨[], s.file, fresh, rfl, hqueue.symm, by simp, fun htorn ↦ ?_⟩
  have hnone : s.file ++ fresh = s.file := hqueue.trans (hwhole htorn).symm
  rw [List.append_right_eq_self.mp hnone]
  exact Nat.zero_le _

theorem Inv.step (h : Inv s) (hstep : Step careful s s') : Inv s' := by
  cases hstep with
  | append a hsaved =>
      exact ⟨fun hidle ↦ (h.idle hidle).append a hsaved,
        fun hbusy ↦ (h.busy hbusy).trans (List.prefix_append _ _)⟩
  | refuse =>
      refine ⟨fun hidle ↦ ?_, h.busy⟩
      obtain ⟨gone, kept, fresh, hfile, hqueue, hgone, hfresh⟩ := h.idle hidle
      exact ⟨gone, kept, fresh, hfile, hqueue, hgone,
        fun hwhole ↦ (hfresh hwhole).trans (Bool.toNat_le s.unsaved)⟩
  | remove a rest hhead hsettled hfree =>
      refine ⟨fun hidle ↦ (h.idle hidle).remove hhead hsettled, fun hbusy ↦ ?_⟩
      change s.file <+: rest
      rw [hfree hbusy]
      exact List.nil_prefix
  | settle settled hmore =>
      refine ⟨fun hidle ↦ ?_, h.busy⟩
      obtain ⟨gone, kept, fresh, hfile, hqueue, hgone, hfresh⟩ := h.idle hidle
      exact ⟨gone, kept, fresh, hfile, hqueue, fun a ha ↦ hmore (hgone a ha), hfresh⟩
  | truncate => exact ⟨fun hidle ↦ Bool.noConfusion hidle, fun _ ↦ List.nil_prefix⟩
  | extend kept hcopying hkept =>
      exact ⟨fun hidle ↦ Bool.noConfusion (hidle.symm.trans hcopying), fun _ ↦ hkept⟩
  | finish unsaved torn stored hcopying hwhole hcareful hstored =>
      exact ⟨fun _ ↦ h.split_of_copied hcopying hwhole, fun hbusy ↦ Bool.noConfusion hbusy⟩
  | miss unsaved =>
      refine ⟨fun hidle ↦ ?_, h.busy⟩
      obtain ⟨gone, kept, fresh, hfile, hqueue, hgone, -⟩ := h.idle hidle
      exact ⟨gone, kept, fresh, hfile, hqueue, hgone, fun htorn ↦ Bool.noConfusion htorn⟩
  | spare hempty =>
      refine ⟨fun hidle ↦ ?_, h.busy⟩
      obtain ⟨gone, kept, fresh, hfile, hqueue, hgone, -⟩ := h.idle hidle
      obtain ⟨rfl, rfl⟩ := List.append_eq_nil_iff.mp (hqueue.symm.trans hempty)
      exact ⟨gone, [], [], hfile, hqueue, hgone, fun _ ↦ Nat.zero_le _⟩
  | recover => exact inv_of_recovered rfl

theorem Safe.step (h : Safe s) (hstep : Step true s s') : Safe s' := by
  cases hstep with
  | append a hsaved =>
      exact fun b hb ↦ (h b hb).imp_right fun hheld ↦ ⟨List.mem_append_left _ hheld.1, hheld.2⟩
  | refuse => exact h
  | remove a rest hhead hsettled hfree =>
      intro b hb
      rcases h b hb with hdone | ⟨hwaits, hfile⟩
      · exact Or.inl hdone
      · rw [hhead] at hwaits
        rcases List.mem_cons.mp hwaits with rfl | hwaits
        · exact Or.inl hsettled
        · exact Or.inr ⟨hwaits, hfile⟩
  | settle settled hmore => exact fun b hb ↦ (h b hb).imp_left fun hdone ↦ hmore hdone
  | truncate =>
      exact fun b hb ↦ (h b hb).imp_right fun hheld ↦
        ⟨hheld.1, fun hidle ↦ Bool.noConfusion hidle⟩
  | extend kept hcopying hkept =>
      exact fun b hb ↦ (h b hb).imp_right fun hheld ↦
        ⟨hheld.1, fun hidle ↦ Bool.noConfusion (hidle.symm.trans hcopying)⟩
  | finish unsaved torn stored hcopying hwhole hcareful hstored =>
      have hall : s.file = s.queue := hwhole (hcareful rfl)
      intro b hb
      rcases hstored hb with hold | hnew
      · refine (h b hold).imp_right fun hheld ↦ ⟨hheld.1, fun _ ↦ ?_⟩
        change b ∈ s.file
        rw [hall]
        exact hheld.1
      · refine Or.inr ⟨?_, fun _ ↦ hnew⟩
        change b ∈ s.queue
        rw [← hall]
        exact hnew
  | miss unsaved => exact h
  | spare hempty => exact h
  | recover hcareful =>
      intro b hb
      refine (h b hb).imp_right fun hheld ↦ ?_
      have hfile := hheld.2 (hcareful rfl)
      exact ⟨hfile, fun _ ↦ hfile⟩

/-- Several steps in a row. -/
theorem Inv.steps (h : Inv s) (hsteps : Relation.ReflTransGen (Step careful) s s') : Inv s' := by
  induction hsteps with
  | refl => exact h
  | tail _ hstep ih => exact ih.step hstep

theorem Safe.steps (h : Safe s) (hsteps : Relation.ReflTransGen (Step true) s s') : Safe s' := by
  induction hsteps with
  | refl => exact h
  | tail _ hstep ih => exact ih.step hstep

end Journal
