import Mathlib

/-!
# Procedures that can throw

A procedure changes a state and returns a value or throws; what it has done to the
state before it throws stays done.  A relation between the states before and after that
is reflexive and transitive holds of a whole procedure if it holds of its primitives.
-/

namespace Procedure

variable {ε σ α β : Type}

/-! ## Calls -/

/-- The state a call leaves behind, whether it returned or threw. -/
def final : EStateM.Result ε σ α → σ
  | .ok _ s => s
  | .error _ s => s

def outcome : EStateM.Result ε σ α → Except ε α
  | .ok a _ => .ok a
  | .error e _ => .error e

theorem bind_ok {m : EStateM ε σ α} {next : α → EStateM ε σ β} {s s' : σ} {a : α}
    (h : m s = .ok a s') : (m >>= next) s = next a s' := by
  change EStateM.bind m next s = next a s'
  rw [EStateM.bind, h]

theorem bind_error {m : EStateM ε σ α} {next : α → EStateM ε σ β} {s s' : σ} {e : ε}
    (h : m s = .error e s') : (m >>= next) s = .error e s' := by
  change EStateM.bind m next s = .error e s'
  rw [EStateM.bind, h]

/-- Up to `n` attempts: `body` says what to return, or nothing to try again. -/
def attempts (body : EStateM ε σ (Option α)) (otherwise : α) : ℕ → EStateM ε σ α
  | 0 => pure otherwise
  | n + 1 => do
      match ← body with
      | some a => pure a
      | none => attempts body otherwise n

/-! ## What every call keeps -/

/-- Every call leads to a state related to the one before. -/
def Keeps (r : σ → σ → Prop) (m : EStateM ε σ α) : Prop := ∀ s, r s (final (m s))

namespace Keeps

variable {r : σ → σ → Prop}

theorem pure [Std.Refl r] (a : α) : Keeps r (Pure.pure a : EStateM ε σ α) := fun s ↦ Std.Refl.refl s

theorem get [Std.Refl r] : Keeps r (MonadState.get : EStateM ε σ σ) := fun s ↦ Std.Refl.refl s

theorem modify {f : σ → σ} (h : ∀ s, r s (f s)) :
    Keeps r (MonadState.modifyGet (fun s ↦ ((), f s)) : EStateM ε σ Unit) := h

theorem bind [IsTrans σ r] {m : EStateM ε σ α} {next : α → EStateM ε σ β} (hm : Keeps r m)
    (hnext : ∀ a, Keeps r (next a)) : Keeps r (m >>= next) := by
  intro s
  have hfirst := hm s
  cases hcall : m s with
  | ok a s' =>
      rw [hcall] at hfirst
      rw [bind_ok hcall]
      exact IsTrans.trans s s' _ hfirst (hnext a s')
  | error e s' =>
      rw [hcall] at hfirst
      rw [bind_error hcall]
      exact hfirst

theorem attempts [Std.Refl r] [IsTrans σ r] {body : EStateM ε σ (Option α)} (hbody : Keeps r body)
    (otherwise : α) (n : ℕ) : Keeps r (attempts body otherwise n) := by
  induction n with
  | zero => exact Keeps.pure otherwise
  | succ n ih =>
      refine Keeps.bind hbody fun answer ↦ ?_
      cases answer with
      | none => exact ih
      | some a => exact Keeps.pure a

end Keeps

/-! ## Dialogues -/

/-- Every entry of a dialogue is one that was permitted by those before it. -/
inductive Follows {ι : Type} (permitted : List ι → ι → Prop) : List ι → Prop
  | nil : Follows permitted []
  | snoc {history : List ι} {entry : ι} (h : Follows permitted history)
      (hpermitted : permitted history entry) : Follows permitted (history ++ [entry])

/-- Whatever is said in a dialogue was permitted at that time. -/
theorem Follows.permitted {ι : Type} {permitted : List ι → ι → Prop} {before after : List ι}
    {entry : ι} (h : Follows permitted (before ++ entry :: after)) : permitted before entry := by
  generalize hlog : before ++ entry :: after = log at h
  induction h generalizing after with
  | nil => simp at hlog
  | snoc h hpermitted ih =>
      rcases List.eq_nil_or_concat after with rfl | ⟨rest, last, rfl⟩
      · obtain ⟨rfl, hentry⟩ := List.append_inj' hlog rfl
        rwa [(List.cons.inj hentry).1]
      · rw [List.concat_eq_append, ← List.cons_append, ← List.append_assoc] at hlog
        exact ih (List.append_inj' hlog rfl).1

/-! ## Attempts that can succeed -/

section Attempts

variable {ι κ τ : Type} {f : ι → σ → Bool × σ} {P Q : σ → Prop} {s : σ}

/-- The attempts in turn, up to the first that succeeds. -/
def tryEach (f : ι → σ → Bool × σ) : List ι → σ → Bool × σ
  | [], s => (false, s)
  | i :: rest, s => if (f i s).1 then f i s else tryEach f rest (f i s).2

/-- A success ends in `Q`, a failure in `P`. -/
def Ends (P Q : σ → Prop) (r : Bool × σ) : Prop := if r.1 then Q r.2 else P r.2

@[simp] theorem ends_true : Ends P Q (true, s) ↔ Q s := by simp [Ends]

@[simp] theorem ends_false : Ends P Q (false, s) ↔ P s := by simp [Ends]

theorem Ends.tryEach {l : List ι} (h : ∀ i ∈ l, ∀ s, P s → Ends P Q (f i s)) (hs : P s) :
    Ends P Q (tryEach f l s) := by
  induction l generalizing s with
  | nil => exact hs
  | cons i rest ih =>
      have hfirst := h i List.mem_cons_self s hs
      rw [Procedure.tryEach]
      split_ifs with hok
      · exact hfirst
      · rw [Ends, if_neg hok] at hfirst
        exact ih (fun j hj ↦ h j (List.mem_cons_of_mem i hj)) hfirst

theorem Ends.imp {P' Q' : σ → Prop} {r : Bool × σ} (h : Ends P Q r) (hP : P r.2 → P' r.2)
    (hQ : Q r.2 → Q' r.2) : Ends P' Q' r := by
  unfold Ends at h ⊢
  split_ifs at h ⊢ with hok
  · exact hQ h
  · exact hP h

theorem ends_self {r : Bool × σ} : Ends P P r ↔ P r.2 := by rw [Ends, ite_self]

/-- Every attempt is matched by one on the view of the state. -/
theorem tryEach_simulated {g : κ → τ → Bool × τ} (view : σ → τ)
    (h : ∀ i s, ∃ k, g k (view s) = Prod.map id view (f i s)) (l : List ι) (s : σ) :
    ∃ ks : List κ, ks.length = l.length ∧
      tryEach g ks (view s) = Prod.map id view (tryEach f l s) := by
  induction l generalizing s with
  | nil => exact ⟨[], rfl, rfl⟩
  | cons i rest ih =>
      obtain ⟨k, hk⟩ := h i s
      obtain ⟨ks, hlength, hks⟩ := ih (f i s).2
      refine ⟨k :: ks, by simp [hlength], ?_⟩
      simp only [tryEach, hk, Prod.map_fst, Prod.map_snd, id_eq, hks]
      split_ifs <;> rfl

/-- All of the calls in turn, with their results. -/
def performAll (f : ι → σ → Bool × σ) : List ι → σ → List Bool × σ
  | [], s => ([], s)
  | i :: rest, s =>
      let r := performAll f rest (f i s).2
      ((f i s).1 :: r.1, r.2)

theorem performAll_simulated {g : κ → τ → Bool × τ} {same : ι → κ → Prop} (view : σ → τ)
    (h : ∀ i s, ∃ k, same i k ∧ g k (view s) = Prod.map id view (f i s)) (l : List ι) (s : σ) :
    ∃ ks : List κ, List.Forall₂ same l ks ∧
      performAll g ks (view s) = Prod.map id view (performAll f l s) := by
  induction l generalizing s with
  | nil => exact ⟨[], .nil, rfl⟩
  | cons i rest ih =>
      obtain ⟨k, hsame, hk⟩ := h i s
      obtain ⟨ks, hall, hks⟩ := ih (f i s).2
      refine ⟨k :: ks, .cons hsame hall, ?_⟩
      simp only [performAll, hk, Prod.map_fst, Prod.map_snd, id_eq, hks, Prod.map_apply]

end Attempts

end Procedure
