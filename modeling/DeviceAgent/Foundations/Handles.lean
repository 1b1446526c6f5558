import Mathlib

/-!
# Handles given out and taken back

A ledger of the handles a holder has been given and has given back.  It is balanced when
every handle given out was given back once, except the one that is held.

File descriptors are handles kept in an integer variable, which is −1 while none is held.
-/

namespace Handles

variable {α : Type*}

structure Ledger (α : Type*) where
  opened : List α
  closed : List α
  deriving DecidableEq, Repr

namespace Ledger

def empty : Ledger α := ⟨[], []⟩

def acquire (l : Ledger α) (a : α) : Ledger α := { l with opened := l.opened ++ [a] }

def release (l : Ledger α) (a : α) : Ledger α := { l with closed := l.closed ++ [a] }

/-- No handle is lost and none is given back twice. -/
def Balanced (l : Ledger α) (held : Option α) : Prop := l.opened.Perm (l.closed ++ held.toList)

variable {l : Ledger α} {a : α}

theorem balanced_empty : (empty : Ledger α).Balanced none := List.Perm.refl []

theorem Balanced.acquire (h : l.Balanced none) (a : α) : (l.acquire a).Balanced (some a) := by
  rw [Balanced, Option.toList_none, List.append_nil] at h
  exact h.append_right [a]

theorem Balanced.release (h : l.Balanced (some a)) : (l.release a).Balanced none := by
  rw [Balanced, Ledger.release, Option.toList_none, List.append_nil]
  exact h

end Ledger

/-! ## Descriptors -/

/-- What a call that opens something returns while the standard streams are open. -/
def IsDescriptor (fd : ℤ) : Prop := fd = -1 ∨ 0 < fd

instance (fd : ℤ) : Decidable (IsDescriptor fd) := inferInstanceAs (Decidable (_ ∨ _))

/-- The descriptor kept in a variable. -/
def held (fd : ℤ) : Option ℤ := if 0 < fd then some fd else none

theorem held_pos {fd : ℤ} (h : 0 < fd) : held fd = some fd := if_pos h

namespace Ledger

variable {l : Ledger ℤ} {fd : ℤ}

/-- A call that opens something has returned. -/
def record (l : Ledger ℤ) (fd : ℤ) : Ledger ℤ := if fd < 0 then l else l.acquire fd

/-- The variable accounts for every descriptor that is still open. -/
structure Accounts (l : Ledger ℤ) (fd : ℤ) : Prop where
  balanced : l.Balanced (held fd)
  descriptor : IsDescriptor fd

theorem accounts_empty : empty.Accounts (-1) := ⟨balanced_empty, Or.inl rfl⟩

theorem Accounts.release (h : l.Accounts fd) (hfd : 0 < fd) : (l.release fd).Accounts (-1) := by
  have hbalanced := h.balanced
  rw [held_pos hfd] at hbalanced
  exact ⟨hbalanced.release, Or.inl rfl⟩

theorem Accounts.none (h : l.Accounts fd) (hfd : ¬ 0 < fd) : fd = -1 :=
  h.descriptor.resolve_right hfd

theorem Accounts.record (h : l.Accounts (-1)) (hfd : IsDescriptor fd) :
    (l.record fd).Accounts fd := by
  refine ⟨?_, hfd⟩
  rcases hfd with rfl | hpos
  · exact h.balanced
  · rw [Ledger.record, if_neg hpos.not_gt, held_pos hpos]
    exact Balanced.acquire h.balanced fd

end Ledger

end Handles
