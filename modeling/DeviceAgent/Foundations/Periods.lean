import Mathlib

/-!
# Periods and words

The next multiple of a period, and integers as a signed word of a machine holds
them.
-/

namespace Periods

/-! ## The next multiple -/

/-- The first multiple of `n` behind `t`. -/
def next (n t : ℤ) : ℤ := (t / n + 1) * n

theorem dvd_next (n t : ℤ) : n ∣ next n t := Dvd.intro_left _ rfl

section Period

variable {n : ℤ} (hn : 0 < n) (t : ℤ)

include hn

theorem lt_next : t < next n t := Int.lt_ediv_add_one_mul_self t hn

theorem next_le : next n t ≤ t + n := by
  have hmul : t / n * n ≤ t := Int.ediv_mul_le t hn.ne'
  rw [next, Int.add_mul, Int.one_mul]
  omega

theorem isLeast_next : IsLeast {k | n ∣ k ∧ t < k} (next n t) := by
  refine ⟨⟨dvd_next n t, lt_next hn t⟩, ?_⟩
  rintro k ⟨⟨c, rfl⟩, hk⟩
  have hquot : t / n < c := Int.ediv_lt_of_lt_mul hn (by rwa [mul_comm])
  rw [next, mul_comm n c]
  exact mul_le_mul_of_nonneg_right hquot hn.le

end Period

/-! ## Signed words -/

/-- What a signed word of `w` bits holds of `x`. -/
def wrap (w : ℕ) (x : ℤ) : ℤ := x.bmod (2 ^ w)

section Word

variable {w : ℕ} (x y : ℤ)

@[simp] theorem wrap_wrap_add : wrap w (wrap w x + y) = wrap w (x + y) := Int.bmod_add_bmod

@[simp] theorem wrap_wrap_sub : wrap w (wrap w x - y) = wrap w (x - y) := Int.bmod_sub_bmod

@[simp] theorem wrap_wrap_mul : wrap w (wrap w x * y) = wrap w (x * y) := Int.bmod_mul_bmod

@[simp] theorem wrap_add_wrap : wrap w (x + wrap w y) = wrap w (x + y) := Int.add_bmod_bmod

theorem wrap_emod : wrap w x % (2 ^ w : ℕ) = x % (2 ^ w : ℕ) := Int.bmod_emod

end Word

theorem wrap_bounds (w : ℕ) (x : ℤ) : -(2 ^ w) ≤ wrap (w + 1) x ∧ wrap (w + 1) x < 2 ^ w := by
  have hpos : 0 < 2 ^ (w + 1) := by positivity
  have hlow := Int.le_bmod (x := x) hpos
  have hhigh := Int.bmod_lt (x := x) hpos
  have hhalf : ((2 ^ (w + 1) : ℕ) : ℤ) = 2 * 2 ^ w := by
    push_cast
    ring
  unfold wrap
  omega

theorem wrap_eq_self {w : ℕ} {x : ℤ} (hlow : -(2 ^ w) ≤ x) (hhigh : x < 2 ^ w) :
    wrap (w + 1) x = x := by
  have hhalf : ((2 ^ (w + 1) : ℕ) : ℤ) = 2 * 2 ^ w := by
    push_cast
    ring
  apply Int.bmod_eq_of_le_mul_two <;> omega

end Periods
