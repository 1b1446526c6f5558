import Mathlib.Data.List.Basic

/-!
# Requests and answers on one line

A server answers requests in the order in which they came, and whoever reads
takes the oldest answer.  Nothing on the line says whose answer it is, so a
reader gets its own one for certain only when nothing else is outstanding.
-/

namespace Exchange

structure Line (ι β : Type*) where
  pending : List ι
  answered : List (ι × β)
  deriving DecidableEq, Repr

namespace Line

variable {ι β : Type*}

/-- The requests whose answers have not been read, in the order of the answers. -/
def outstanding (l : Line ι β) : List ι := l.answered.map Prod.fst ++ l.pending

def send (l : Line ι β) (i : ι) : Line ι β := { l with pending := l.pending ++ [i] }

/-- The server answers the oldest request. -/
def answer (l : Line ι β) (b : β) : Option (Line ι β) :=
  match l.pending with
  | [] => none
  | i :: rest => some ⟨rest, l.answered ++ [(i, b)]⟩

/-- A read takes the oldest answer.  It waits while a request is pending and
finds nothing when none is. -/
def receive (l : Line ι β) : Option (Option (ι × β) × Line ι β) :=
  match l.answered, l.pending with
  | e :: rest, _ => some (some e, { l with answered := rest })
  | [], [] => some (none, l)
  | [], _ :: _ => none

theorem outstanding_send (l : Line ι β) (i : ι) :
    (l.send i).outstanding = l.outstanding ++ [i] := by
  simp [outstanding, send]

theorem outstanding_answer {l l' : Line ι β} {b : β} (h : l.answer b = some l') :
    l'.outstanding = l.outstanding := by
  unfold answer at h
  split at h
  · cases h
  · rename_i i rest hpending
    obtain rfl := Option.some.inj h
    simp [outstanding, hpending]

/-- With one request outstanding, a read that returns has its answer. -/
theorem receive_own {l : Line ι β} {i : ι} (hone : l.outstanding = [i])
    {r : Option (ι × β) × Line ι β} (h : l.receive = some r) :
    ∃ b, r.1 = some (i, b) ∧ r.2.outstanding = [] := by
  rcases l with ⟨pending, answered⟩
  cases answered with
  | nil =>
      obtain rfl : pending = [i] := by simpa [outstanding] using hone
      simp [receive] at h
  | cons e rest =>
      obtain rfl : (some e, Line.mk pending rest) = r := by simpa [receive] using h
      rcases e with ⟨j, b⟩
      obtain ⟨rfl, hrest⟩ : j = i ∧ rest.map Prod.fst ++ pending = [] := by
        simpa [outstanding] using hone
      exact ⟨b, rfl, hrest⟩

/-- With nothing outstanding, a read finds nothing. -/
theorem receive_nothing {l : Line ι β} (hnone : l.outstanding = [])
    {r : Option (ι × β) × Line ι β} (h : l.receive = some r) : r = (none, l) := by
  rcases l with ⟨pending, answered⟩
  obtain ⟨rfl, rfl⟩ : answered = [] ∧ pending = [] := by simpa [outstanding] using hnone
  exact (Option.some.inj h).symm

end Line

end Exchange
