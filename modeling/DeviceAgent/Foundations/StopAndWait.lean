import Mathlib

/-!
# Stop-and-wait delivery

A sender serves the head of a queue and removes it only when the receiver has
it, or when it is not to be carried at all.  Copies in flight may be lost,
repeated and overtaken.  Nothing is lost, and items are first received in the
order in which they were queued.
-/

namespace StopAndWait

variable {α : Type*} [DecidableEq α]

/-- The distinct entries of a log, each at its first occurrence. -/
def firsts (log : List α) : List α :=
  log.foldl (fun acc a ↦ if a ∈ acc then acc else acc ++ [a]) []

theorem firsts_append (log : List α) (a : α) :
    firsts (log ++ [a]) = if a ∈ firsts log then firsts log else firsts log ++ [a] := by
  rw [firsts, List.foldl_append]
  rfl

theorem mem_firsts {log : List α} {a : α} : a ∈ firsts log ↔ a ∈ log := by
  induction log using List.reverseRecOn with
  | nil => simp [firsts]
  | append_singleton log b ih =>
      rw [firsts_append, List.mem_append, List.mem_singleton, ← ih]
      split
      · rename_i hb
        exact ⟨Or.inl, fun h ↦ h.elim id fun hab ↦ hab ▸ hb⟩
      · simp

structure State (α : Type*) where
  done : List α
  queue : List α
  /-- Copies that may still arrive. -/
  flight : List α
  received : List α

inductive Step (carried : α → Bool) (s : State α) : State α → Prop
  | append (a : α) (hfresh : a ∉ s.done ++ s.queue) :
      Step carried s { s with queue := s.queue ++ [a] }
  | transmit (a : α) (flight : List α) (hhead : s.queue.head? = some a)
      (hcarried : carried a = true) (hmore : flight ⊆ a :: s.flight) :
      Step carried s { s with flight := flight }
  | receive (a : α) (flight : List α) (hflight : a ∈ s.flight) (hless : flight ⊆ s.flight) :
      Step carried s { s with flight := flight, received := s.received ++ [a] }
  | acknowledge (a : α) (rest : List α) (hqueue : s.queue = a :: rest) (hgot : a ∈ s.received) :
      Step carried s { s with done := s.done ++ [a], queue := rest }
  | discard (a : α) (rest : List α) (hqueue : s.queue = a :: rest) (hnot : carried a = false) :
      Step carried s { s with done := s.done ++ [a], queue := rest }
  | rearrange (flight : List α) (hless : flight ⊆ s.flight) :
      Step carried s { s with flight := flight }

structure Inv (carried : α → Bool) (s : State α) : Prop where
  distinct : (s.done ++ s.queue).Nodup
  inFlight : ∀ a ∈ s.flight, carried a = true ∧ (a ∈ s.received ∨ s.queue.head? = some a)
  order : firsts s.received = s.done.filter carried ∨
    ∃ a, s.queue.head? = some a ∧ carried a = true ∧
      firsts s.received = s.done.filter carried ++ [a]

variable {carried : α → Bool} {s s' : State α}

theorem inv_empty : Inv carried ⟨[], [], [], []⟩ := by
  constructor <;> simp [firsts]

theorem Inv.received_cases (h : Inv carried s) {a : α} (ha : a ∈ s.received) :
    a ∈ s.done ∨ s.queue.head? = some a := by
  rw [← mem_firsts] at ha
  rcases h.order with heq | ⟨b, hhead, -, heq⟩
  · rw [heq] at ha
    exact Or.inl (List.mem_of_mem_filter ha)
  · rw [heq, List.mem_append, List.mem_singleton] at ha
    rcases ha with ha | rfl
    · exact Or.inl (List.mem_of_mem_filter ha)
    · exact Or.inr hhead

theorem Inv.order_of_head (h : Inv carried s) {a : α} {rest : List α}
    (hqueue : s.queue = a :: rest) (hgot : a ∈ s.received) :
    carried a = true ∧ firsts s.received = s.done.filter carried ++ [a] := by
  rcases h.order with heq | ⟨b, hhead, hb, heq⟩
  · have hdone : a ∈ s.done := by
      rw [← mem_firsts, heq] at hgot
      exact List.mem_of_mem_filter hgot
    have hdistinct := h.distinct
    rw [hqueue, List.nodup_append] at hdistinct
    exact absurd rfl (hdistinct.2.2 a hdone a (by simp))
  · obtain rfl : a = b := by simpa [hqueue] using hhead
    exact ⟨hb, heq⟩

theorem Inv.step (h : Inv carried s) (hstep : Step carried s s') : Inv carried s' := by
  cases hstep with
  | append a hfresh =>
      have hhead : ∀ b, s.queue.head? = some b → (s.queue ++ [a]).head? = some b := by
        intro b hb
        rw [List.head?_append, hb, Option.some_or]
      refine ⟨?_, fun b hb ↦ ⟨(h.inFlight b hb).1, (h.inFlight b hb).2.imp_right (hhead b)⟩, ?_⟩
      · have hdistinct := h.distinct
        rw [← List.append_assoc]
        exact List.nodup_append.mpr ⟨hdistinct, by simp, by
          intro b hb c hc
          rw [List.mem_singleton.mp hc]
          rintro rfl
          exact hfresh hb⟩
      · exact h.order.imp_right fun ⟨b, hb, hrest⟩ ↦ ⟨b, hhead b hb, hrest⟩
  | transmit a flight hhead hcarried hmore =>
      refine ⟨h.distinct, fun b hb ↦ ?_, h.order⟩
      rcases List.mem_cons.mp (hmore hb) with rfl | hb
      · exact ⟨hcarried, Or.inr hhead⟩
      · exact h.inFlight b hb
  | receive a flight hflight hless =>
      refine ⟨h.distinct, fun b hb ↦ ?_, ?_⟩
      · obtain ⟨hb, hwhere⟩ := h.inFlight b (hless hb)
        exact ⟨hb, hwhere.imp_left fun hgot ↦ List.mem_append_left _ hgot⟩
      · obtain ⟨hcarried, hwhere⟩ := h.inFlight a hflight
        by_cases hold : a ∈ s.received
        · rw [firsts_append, if_pos (mem_firsts.mpr hold)]
          exact h.order
        · -- a first receipt can only be that of the head
          have hhead := hwhere.resolve_left hold
          have hnew : a ∉ firsts s.received := fun hmem ↦ hold (mem_firsts.mp hmem)
          rw [firsts_append, if_neg hnew]
          rcases h.order with heq | ⟨b, hb, -, heq⟩
          · exact Or.inr ⟨a, hhead, hcarried, by rw [heq]⟩
          · obtain rfl : b = a := Option.some.inj (hb.symm.trans hhead)
            exact absurd (by simp [heq]) hnew
  | acknowledge a rest hqueue hgot =>
      obtain ⟨hcarried, hfirsts⟩ := h.order_of_head hqueue hgot
      refine ⟨?_, fun b hb ↦ ?_, Or.inl ?_⟩
      · have hdistinct := h.distinct
        rwa [hqueue, List.append_cons] at hdistinct
      · obtain ⟨hb, hwhere⟩ := h.inFlight b hb
        refine ⟨hb, Or.inl (hwhere.elim id fun hhead ↦ ?_)⟩
        obtain rfl : a = b := by simpa [hqueue] using hhead
        exact hgot
      · rw [hfirsts, List.filter_append, List.filter_cons_of_pos hcarried, List.filter_nil]
  | discard a rest hqueue hnot =>
      have hhead : ∀ b, carried b = true → s.queue.head? ≠ some b := by
        intro b hb hhead
        obtain rfl : a = b := by simpa [hqueue] using hhead
        simp [hb] at hnot
      refine ⟨?_, fun b hb ↦ ?_, Or.inl ?_⟩
      · have hdistinct := h.distinct
        rwa [hqueue, List.append_cons] at hdistinct
      · obtain ⟨hb, hwhere⟩ := h.inFlight b hb
        exact ⟨hb, Or.inl (hwhere.resolve_right (hhead b hb))⟩
      · rw [List.filter_append, List.filter_cons_of_neg (by simp [hnot]), List.filter_nil,
          List.append_nil]
        exact h.order.resolve_right fun ⟨b, hb, hcarried, _⟩ ↦ hhead b hcarried hb
  | rearrange flight hless =>
      exact ⟨h.distinct, fun b hb ↦ h.inFlight b (hless hb), h.order⟩

/-- No loss: what has left the queue has been received or was not to be carried. -/
theorem Inv.kept (h : Inv carried s) {a : α} (ha : a ∈ s.done ++ s.queue) :
    a ∈ s.queue ∨ a ∈ s.received ∨ carried a = false := by
  rcases List.mem_append.mp ha with hdone | hqueue
  · cases hcarried : carried a with
    | false => exact Or.inr (Or.inr rfl)
    | true =>
        refine Or.inr (Or.inl (mem_firsts.mp ?_))
        have hmem : a ∈ s.done.filter carried := List.mem_filter.mpr ⟨hdone, hcarried⟩
        rcases h.order with heq | ⟨b, -, -, heq⟩
        · rwa [heq]
        · rw [heq]
          exact List.mem_append_left _ hmem
  · exact Or.inl hqueue

/-- No overtaking: first receipts follow the order of the queue. -/
theorem Inv.firsts_prefix (h : Inv carried s) :
    firsts s.received <+: (s.done ++ s.queue).filter carried := by
  rw [List.filter_append]
  rcases h.order with heq | ⟨a, hhead, hcarried, heq⟩
  · rw [heq]
    exact List.prefix_append _ _
  · obtain ⟨rest, hqueue⟩ := List.head?_eq_some_iff.mp hhead
    rw [heq, hqueue, List.filter_cons_of_pos hcarried]
    exact ⟨rest.filter carried, by simp⟩

end StopAndWait
