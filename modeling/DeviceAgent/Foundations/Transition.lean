import Mathlib

/-!
# Executable transition systems

A system is a partial step function on labels.  `Reaches` collects the states
of all runs whose steps meet a guard; runs over concrete label lists are
evaluated with `run`.
-/

namespace Transition

variable {σ α : Type*} (step : σ → α → Option σ)

def run : List α → σ → Option σ
  | [], s => some s
  | a :: rest, s =>
      match step s a with
      | some s' => run rest s'
      | none => none

theorem exists_run (labels : List α) (start : σ) (p : σ → Prop) [DecidablePred p]
    (h : (run step labels start).any (fun s ↦ decide (p s)) = true) :
    ∃ s, run step labels start = some s ∧ p s := by
  cases hrun : run step labels start with
  | none => simp [hrun] at h
  | some s => exact ⟨s, rfl, by simpa [hrun] using h⟩

/-- States reached from `start` by steps that all meet `guard`. -/
inductive Reaches (guard : σ → α → Prop) (start : σ) : σ → Prop
  | start : Reaches guard start start
  | step {s s' : σ} {a : α} (hs : Reaches guard start s) (hguard : guard s a)
      (hstep : step s a = some s') : Reaches guard start s'

variable {step} {guard : σ → α → Prop}

theorem Reaches.invariant (inv : σ → Prop) {start s : σ}
    (hkeep : ∀ s a s', inv s → guard s a → step s a = some s' → inv s')
    (hstart : inv start) (h : Reaches step guard start s) : inv s := by
  induction h with
  | start => exact hstart
  | step _ hguard hstep ih => exact hkeep _ _ _ ih hguard hstep

/-- The guard holds at every step of this run. -/
def Meets (step : σ → α → Option σ) (guard : σ → α → Prop) : List α → σ → Prop
  | [], _ => True
  | a :: rest, s =>
      guard s a ∧
        match step s a with
        | some s' => Meets step guard rest s'
        | none => True

instance [hguard : ∀ s a, Decidable (guard s a)] :
    ∀ labels s, Decidable (Meets step guard labels s)
  | [], _ => isTrue trivial
  | a :: rest, s =>
      match hstep : step s a with
      | some s' =>
          have := instDecidableMeets rest s'
          decidable_of_iff (guard s a ∧ Meets step guard rest s') (by rw [Meets, hstep])
      | none => decidable_of_iff (guard s a) (by rw [Meets, hstep, and_true])

theorem Reaches.of_run {start s : σ} {labels : List α} (hmeets : Meets step guard labels start)
    (hrun : run step labels start = some s) : Reaches step guard start s := by
  suffices hgo : ∀ labels s₀, Reaches step guard start s₀ → Meets step guard labels s₀ →
      run step labels s₀ = some s → Reaches step guard start s from
    hgo labels start .start hmeets hrun
  intro labels
  induction labels with
  | nil =>
      intro s₀ hreach _ hrun
      obtain rfl : s₀ = s := by simpa [run] using hrun
      exact hreach
  | cons a rest ih =>
      rintro s₀ hreach ⟨hguard, hrest⟩ hrun
      rw [run] at hrun
      cases hstep : step s₀ a with
      | none =>
          rw [hstep] at hrun
          cases hrun
      | some s₁ =>
          rw [hstep] at hrun hrest
          exact ih s₁ (.step hreach hguard hstep) hrest hrun

theorem meets_true (labels : List α) (s : σ) : Meets step (fun _ _ ↦ True) labels s := by
  induction labels generalizing s with
  | nil => trivial
  | cons a rest ih =>
      refine ⟨trivial, ?_⟩
      cases step s a with
      | none => trivial
      | some s' => exact ih s'

/-- Two guards that agree at the states of an invariant, on the labels that occur,
are met by the same runs. -/
theorem meets_congr {guard guard' : σ → α → Prop} {good : α → Prop} (inv : σ → Prop)
    (hkeep : ∀ s a s', inv s → step s a = some s' → inv s')
    (hiff : ∀ s a, inv s → good a → (guard s a ↔ guard' s a)) {labels : List α}
    (hlabels : ∀ a ∈ labels, good a) {s : σ} (hs : inv s) :
    Meets step guard labels s ↔ Meets step guard' labels s := by
  induction labels generalizing s with
  | nil => exact Iff.rfl
  | cons a rest ih =>
      have hrest : ∀ b ∈ rest, good b := fun b hb ↦ hlabels b (List.mem_cons_of_mem a hb)
      refine and_congr (hiff s a hs (hlabels a List.mem_cons_self)) ?_
      cases hstep : step s a with
      | none => exact Iff.rfl
      | some s' => exact ih hrest (hkeep s a s' hs hstep)

/-! ## What a system can be led to -/

/-- Exactly `n` steps with labels of a kind lead from the one state to the other. -/
inductive LeadsTo (step : σ → α → Option σ) (good : α → Prop) : ℕ → σ → σ → Prop
  | refl (s : σ) : LeadsTo step good 0 s s
  | head {n : ℕ} {s s' s'' : σ} {a : α} (ha : good a) (hstep : step s a = some s')
      (h : LeadsTo step good n s' s'') : LeadsTo step good (n + 1) s s''

theorem LeadsTo.trans {good : α → Prop} {m n : ℕ} {s s' s'' : σ} (h : LeadsTo step good m s s')
    (h' : LeadsTo step good n s' s'') : LeadsTo step good (m + n) s s'' := by
  induction h with
  | refl s => rwa [Nat.zero_add]
  | head ha hstep _ ih =>
      rw [Nat.add_right_comm]
      exact .head ha hstep (ih h')

theorem LeadsTo.exists_run {good : α → Prop} {n : ℕ} {s s' : σ} (h : LeadsTo step good n s s') :
    ∃ labels, labels.length = n ∧ (∀ a ∈ labels, good a) ∧ run step labels s = some s' := by
  induction h with
  | refl s => exact ⟨[], rfl, by simp, rfl⟩
  | head ha hstep _ ih =>
      obtain ⟨labels, hlength, hgood, hrun⟩ := ih
      refine ⟨_ :: labels, by rw [List.length_cons, hlength],
        List.forall_mem_cons.mpr ⟨ha, hgood⟩, ?_⟩
      rw [run, hstep]
      exact hrun

/-- A system whose rank can be lowered until it halts can be led there, in no more steps
than the rank falls by. -/
theorem exists_leadsTo {good : α → Prop} {inv halted : σ → Prop} (rank : σ → ℕ)
    (hfall : ∀ s, inv s → ¬ halted s →
      ∃ a s', good a ∧ step s a = some s' ∧ rank s' < rank s ∧ inv s') {s : σ} (hs : inv s) :
    ∃ n s', LeadsTo step good n s s' ∧ n + rank s' ≤ rank s ∧ inv s' ∧ halted s' := by
  induction hrank : rank s using Nat.strong_induction_on generalizing s with
  | _ r ih =>
    by_cases hhalted : halted s
    · exact ⟨0, s, .refl s, by omega, hs, hhalted⟩
    · obtain ⟨a, s₁, ha, hstep, hless, hs₁⟩ := hfall s hs hhalted
      obtain ⟨n, s', hleads, hcost, hs', hhalted'⟩ := ih _ (hrank ▸ hless) hs₁ rfl
      exact ⟨n + 1, s', .head ha hstep hleads, by omega, hs', hhalted'⟩

/-! ## Machines driven by a stream of inputs -/

section Driven

variable {ι : Type*} (move : ι → σ → σ) (input : ℕ → ι)

def drive : ℕ → σ → σ
  | 0, s => s
  | n + 1, s => move (input n) (drive n s)

variable {move input} {good : ι → Prop} {inv : σ → Prop}

theorem drive_invariant (hinput : ∀ n, good (input n))
    (hkeep : ∀ i s, good i → inv s → inv (move i s)) {s : σ} (hs : inv s) (n : ℕ) :
    inv (drive move input n s) := by
  induction n with
  | zero => exact hs
  | succ n ih => exact hkeep _ _ (hinput n) ih

theorem drive_congr {input' : ℕ → ι} {n : ℕ} (h : ∀ k < n, input k = input' k) (s : σ) :
    drive move input n s = drive move input' n s := by
  induction n with
  | zero => rfl
  | succ n ih =>
      rw [drive, drive, h n n.lt_succ_self, ih fun k hk ↦ h k (hk.trans n.lt_succ_self)]

/-- Moves chosen one after the other are the moves of one stream. -/
theorem exists_drive [Nonempty ι] {s s' : σ}
    (h : Relation.ReflTransGen (fun s s' ↦ ∃ i, move i s = s') s s') :
    ∃ input n, drive move input n s = s' := by
  induction h with
  | refl => exact ⟨fun _ ↦ Classical.arbitrary ι, 0, rfl⟩
  | tail _ hlast ih =>
      obtain ⟨input, n, rfl⟩ := ih
      obtain ⟨i, rfl⟩ := hlast
      refine ⟨Function.update input n i, n + 1, ?_⟩
      have hbefore : ∀ k < n, Function.update input n i k = input k :=
        fun k hk ↦ Function.update_of_ne hk.ne i input
      rw [drive, Function.update_self, drive_congr hbefore]

/-- A machine whose rank falls with every move until it halts does halt, within
as many moves as its rank. -/
theorem drive_halts (hinput : ∀ n, good (input n))
    (hkeep : ∀ i s, good i → inv s → inv (move i s)) (rank : σ → ℕ) {halted : σ → Prop}
    (hfall : ∀ i s, good i → inv s → ¬ halted s → rank (move i s) < rank s)
    {s : σ} (hs : inv s) : ∃ n ≤ rank s, halted (drive move input n s) := by
  by_contra hnever
  push Not at hnever
  have hrank : ∀ n ≤ rank s + 1, rank (drive move input n s) + n ≤ rank s := by
    intro n
    induction n with
    | zero => simp [drive]
    | succ n ih =>
        intro hn
        have hprev := ih (by omega)
        have hlt := hfall _ _ (hinput n) (drive_invariant hinput hkeep hs n)
          (hnever n (by omega))
        have hmove : rank (drive move input (n + 1) s) =
            rank (move (input n) (drive move input n s)) := rfl
        omega
  have hlast := hrank (rank s + 1) le_rfl
  omega

end Driven

/-! ## Processes that go on from round to round -/

section Rounds

variable (round : ℕ → σ → Option σ)

/-- The state behind `n` rounds, unless one of them has ended the process. -/
def after : ℕ → σ → Option σ
  | 0, s => some s
  | n + 1, s => (after n s).bind (round n)

variable {round}

section Tracked

variable {track : ℕ → σ → Prop} {last : ℕ → Prop} {s : σ}

theorem after_tracked (hs : track 0 s)
    (hround : ∀ n t, track n t →
      (last n ∧ round n t = none) ∨ (¬ last n ∧ ∃ t', round n t = some t' ∧ track (n + 1) t'))
    (n : ℕ) :
    ((∃ k, last k) ∧ after round n s = none) ∨
      ((∀ k < n, ¬ last k) ∧ ∃ t, after round n s = some t ∧ track n t) := by
  induction n with
  | zero => exact Or.inr ⟨by simp, s, rfl, hs⟩
  | succ n ih =>
      rcases ih with ⟨hlast, hnone⟩ | ⟨hbefore, t, ht, htrack⟩
      · exact Or.inl ⟨hlast, by rw [after, hnone, Option.bind_none]⟩
      · have hnext : after round (n + 1) s = round n t := by rw [after, ht, Option.bind_some]
        rcases hround n t htrack with ⟨hlast, hnone⟩ | ⟨hnot, t', ht', htrack'⟩
        · exact Or.inl ⟨⟨n, hlast⟩, hnext.trans hnone⟩
        · refine Or.inr ⟨fun k hk ↦ ?_, t', hnext.trans ht', htrack'⟩
          rcases Nat.lt_succ_iff_lt_or_eq.mp hk with hlt | rfl
          · exact hbefore k hlt
          · exact hnot

/-- A process that is followed through its rounds ends exactly if one of them is a last
one. -/
theorem ends_iff (track : ℕ → σ → Prop) (last : ℕ → Prop) (hs : track 0 s)
    (hround : ∀ n t, track n t →
      (last n ∧ round n t = none) ∨ (¬ last n ∧ ∃ t', round n t = some t' ∧ track (n + 1) t')) :
    (∃ n, after round n s = none) ↔ ∃ n, last n := by
  constructor
  · rintro ⟨n, hn⟩
    rcases after_tracked hs hround n with ⟨hlast, -⟩ | ⟨-, t, ht, -⟩
    · exact hlast
    · rw [hn] at ht
      cases ht
  · rintro ⟨n, hlast⟩
    rcases after_tracked hs hround (n + 1) with ⟨-, hnone⟩ | ⟨hbefore, -⟩
    · exact ⟨n + 1, hnone⟩
    · exact absurd hlast (hbefore n n.lt_succ_self)

end Tracked

end Rounds

end Transition
