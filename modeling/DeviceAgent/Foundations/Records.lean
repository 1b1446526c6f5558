import Mathlib

/-!
# Cutting a string of records

A file written record by record is the concatenation of their encodings.  Its
first `k` symbols are some whole records followed by a torn one, which may be
empty.
-/

namespace Records

variable {α β : Type*} (encode : α → List β)

/-- How many records lie wholly within the first `k` symbols. -/
def wholeWithin : List α → ℕ → ℕ
  | [], _ => 0
  | a :: q, k =>
      if (encode a).length ≤ k then wholeWithin q (k - (encode a).length) + 1 else 0

theorem wholeWithin_le (q : List α) (k : ℕ) : wholeWithin encode q k ≤ q.length := by
  induction q generalizing k with
  | nil => exact le_rfl
  | cons a q ih =>
      rw [wholeWithin]
      split
      · exact Nat.succ_le_succ (ih _)
      · exact Nat.zero_le _

theorem wholeWithin_spec (q : List α) (k : ℕ) :
    ((q.take (wholeWithin encode q k)).flatMap encode).length ≤ k ∧
      (wholeWithin encode q k < q.length →
        k < ((q.take (wholeWithin encode q k + 1)).flatMap encode).length) := by
  induction q generalizing k with
  | nil => simp [wholeWithin]
  | cons a q ih =>
      rw [wholeWithin]
      split
      · rename_i hfit
        obtain ⟨hle, hmore⟩ := ih (k - (encode a).length)
        constructor
        · simp only [List.take_succ_cons, List.flatMap_cons, List.length_append]
          omega
        · intro hlt
          have hnext := hmore (by simpa using hlt)
          simp only [List.take_succ_cons, List.flatMap_cons, List.length_append]
          omega
      · rename_i hlong
        refine ⟨by simp, fun _ ↦ ?_⟩
        simpa using Nat.lt_of_not_le hlong

/-- What is left after the whole records is a proper beginning of the next. -/
inductive Torn (q : List α) : List β → Prop
  | clean : Torn q []
  | inside (a : α) (rest missing : List β) (ha : a ∈ q) (hsplit : encode a = rest ++ missing)
      (hmissing : missing ≠ []) : Torn q rest

theorem take_flatMap (q : List α) (k : ℕ) :
    ∃ rest, Torn encode q rest ∧
      (q.flatMap encode).take k = (q.take (wholeWithin encode q k)).flatMap encode ++ rest := by
  induction q generalizing k with
  | nil => exact ⟨[], .clean, by simp [wholeWithin]⟩
  | cons a q ih =>
      rw [wholeWithin]
      split
      · rename_i hfit
        obtain ⟨rest, htorn, heq⟩ := ih (k - (encode a).length)
        refine ⟨rest, ?_, ?_⟩
        · cases htorn with
          | clean => exact .clean
          | inside b rest missing hb hsplit hmissing =>
              exact .inside b rest missing (List.mem_cons_of_mem a hb) hsplit hmissing
        · rw [List.flatMap_cons, List.take_append, List.take_of_length_le hfit, heq,
            List.take_succ_cons, List.flatMap_cons, List.append_assoc]
      · rename_i hlong
        refine ⟨(encode a).take k, ?_, ?_⟩
        · refine .inside a _ ((encode a).drop k) (by simp) (List.take_append_drop k _).symm ?_
          intro hnil
          rw [List.drop_eq_nil_iff] at hnil
          exact hlong hnil
        · rw [List.flatMap_cons, List.take_append_of_le_length (Nat.le_of_not_le hlong)]
          simp

/-! ## Records of one size -/

theorem take_flatMap_mul {size : ℕ} (hsize : ∀ a, (encode a).length = size) (q : List α) (m : ℕ) :
    (q.flatMap encode).take (size * m) = (q.take m).flatMap encode := by
  induction m generalizing q with
  | zero => simp
  | succ m ih =>
      cases q with
      | nil => simp
      | cons a q =>
          rw [List.flatMap_cons, Nat.mul_succ, Nat.add_comm, ← hsize a, List.take_length_add_append,
            hsize a, ih, List.take_succ_cons, List.flatMap_cons]

theorem drop_flatMap_mul {size : ℕ} (hsize : ∀ a, (encode a).length = size) (q : List α) (m : ℕ) :
    (q.flatMap encode).drop (size * m) = (q.drop m).flatMap encode := by
  induction m generalizing q with
  | zero => simp
  | succ m ih =>
      cases q with
      | nil => simp
      | cons a q =>
          rw [List.flatMap_cons, Nat.mul_succ, Nat.add_comm, ← hsize a, List.drop_length_add_append,
            hsize a, ih, List.drop_succ_cons]

theorem length_flatMap_of_mem {size : ℕ} {q : List α} (hsize : ∀ a ∈ q, (encode a).length = size) :
    (q.flatMap encode).length = size * q.length := by
  induction q with
  | nil => rfl
  | cons a q ih =>
      rw [List.flatMap_cons, List.length_append, hsize a List.mem_cons_self,
        ih fun b hb ↦ hsize b (List.mem_cons_of_mem a hb), List.length_cons, Nat.mul_succ,
        Nat.add_comm]

end Records
