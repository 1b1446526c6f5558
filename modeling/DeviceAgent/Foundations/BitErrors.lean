import DeviceAgent.Foundations.ShiftRegister

/-!
# Bit errors in byte strings

Bit `k` of byte `j` of a string is position `8 * j + k`, the low bit of each
byte first.  A set of positions is an error pattern.  The module relates
flipping those positions in a string of bytes to the pattern's own run through
a feedback register, where the errors simply add up.
-/

namespace BitErrors

open Function
open ShiftRegister

/-- The bits of a byte, the least significant one first. -/
def byteBits (b : BitVec 8) : List Bool := (List.range 8).map b.getLsbD

/-- The bits of a string of bytes, in the order in which a reflected register
takes them. -/
def bits (bytes : List (BitVec 8)) : List Bool := bytes.flatMap byteBits

@[simp] theorem length_byteBits (b : BitVec 8) : (byteBits b).length = 8 := by
  simp [byteBits]

@[simp] theorem bits_cons (b : BitVec 8) (bytes : List (BitVec 8)) :
    bits (b :: bytes) = byteBits b ++ bits bytes := rfl

@[simp] theorem length_bits (bytes : List (BitVec 8)) :
    (bits bytes).length = 8 * bytes.length := by
  induction bytes with
  | nil => rfl
  | cons b bytes ih =>
      rw [bits_cons, List.length_append, ih, length_byteBits, List.length_cons]
      omega

theorem byteBits_injective : Injective byteBits := by
  intro a b h
  apply BitVec.eq_of_getLsbD_eq
  intro i hi
  have hbit := congrArg (fun l ↦ l.getD i false) h
  simpa [byteBits, List.getD_eq_getElem?_getD, hi] using hbit

theorem bits_injective : Injective bits := by
  intro xs
  induction xs with
  | nil =>
      intro ys h
      have hlen := congrArg List.length h
      rw [length_bits, length_bits] at hlen
      exact (List.length_eq_zero_iff.mp (by simpa using hlen.symm)).symm
  | cons x xs ih =>
      intro ys h
      cases ys with
      | nil => simpa using congrArg List.length h
      | cons y ys =>
          obtain ⟨hhead, htail⟩ := List.append_inj h (by simp)
          rw [byteBits_injective hhead, ih htail]

theorem load_byteBits {w : ℕ} (b : BitVec 8) :
    (load (byteBits b) : BitVec w) = b.setWidth w := by
  apply BitVec.eq_of_getLsbD_eq
  intro i hi
  rw [getLsbD_load _ i hi, BitVec.getLsbD_setWidth]
  by_cases hi8 : i < 8
  · rw [List.getD_eq_getElem _ _ (by simpa using hi8)]
    simp [byteBits, hi]
  · rw [List.getD_eq_default _ _ (by simpa using hi8), BitVec.getLsbD_of_ge b i (by omega)]
    simp

/-! ## Error patterns -/

/-- The positions `a, a + 1, …, a + n - 1` of a pattern, as bits. -/
def pattern (S : Finset ℕ) (a n : ℕ) : List Bool :=
  (List.range n).map fun i ↦ decide (a + i ∈ S)

/-- The eight positions of byte `j` of a pattern, as a byte. -/
def mask (S : Finset ℕ) (j : ℕ) : BitVec 8 := load (pattern S (8 * j) 8)

/-- Flip the positions of a pattern in the bytes from number `a` on. -/
def flipFrom (S : Finset ℕ) : ℕ → List (BitVec 8) → List (BitVec 8)
  | _, [] => []
  | a, b :: bytes => (b ^^^ mask S a) :: flipFrom S (a + 1) bytes

/-- Flip the positions of a pattern in a whole string. -/
def flip (S : Finset ℕ) (bytes : List (BitVec 8)) : List (BitVec 8) := flipFrom S 0 bytes

@[simp] theorem length_pattern (S : Finset ℕ) (a n : ℕ) : (pattern S a n).length = n := by
  simp [pattern]

theorem pattern_succ (S : Finset ℕ) (a n : ℕ) :
    pattern S a (n + 1) = pattern S a n ++ [decide (a + n ∈ S)] := by
  simp [pattern, List.range_succ]

theorem pattern_add (S : Finset ℕ) (a m n : ℕ) :
    pattern S a (m + n) = pattern S a m ++ pattern S (a + m) n := by
  simp [pattern, List.range_add, Nat.add_assoc]

theorem pattern_congr {S T : Finset ℕ} {a n : ℕ}
    (h : ∀ i, a ≤ i → i < a + n → (i ∈ S ↔ i ∈ T)) : pattern S a n = pattern T a n := by
  apply List.map_congr_left
  intro i hi
  have hlt := List.mem_range.mp hi
  simp only [h (a + i) (by omega) (by omega)]

theorem pattern_eq_replicate {S : Finset ℕ} {a n : ℕ}
    (h : ∀ i, a ≤ i → i < a + n → i ∉ S) : pattern S a n = List.replicate n false := by
  apply List.eq_replicate_iff.mpr
  refine ⟨length_pattern S a n, ?_⟩
  intro b hb
  obtain ⟨i, hi, rfl⟩ := List.mem_map.mp hb
  have hlt := List.mem_range.mp hi
  simpa using h (a + i) (by omega) (by omega)

theorem true_mem_pattern {S : Finset ℕ} {a n i : ℕ} (hi : i ∈ S) (hai : a ≤ i)
    (hin : i < a + n) : true ∈ pattern S a n := by
  apply List.mem_map.mpr
  refine ⟨i - a, List.mem_range.mpr (by omega), ?_⟩
  have hadd : a + (i - a) = i := by omega
  simp [hadd, hi]

@[simp] theorem length_flipFrom (S : Finset ℕ) (a : ℕ) (bytes : List (BitVec 8)) :
    (flipFrom S a bytes).length = bytes.length := by
  induction bytes generalizing a with
  | nil => rfl
  | cons b bytes ih => simp [flipFrom, ih]

theorem flipFrom_append (S : Finset ℕ) (a : ℕ) (xs ys : List (BitVec 8)) :
    flipFrom S a (xs ++ ys) = flipFrom S a xs ++ flipFrom S (a + xs.length) ys := by
  induction xs generalizing a with
  | nil => simp [flipFrom]
  | cons x xs ih =>
      rw [List.cons_append, flipFrom, ih, flipFrom, List.cons_append, List.length_cons]
      have hadd : a + 1 + xs.length = a + (xs.length + 1) := by omega
      rw [hadd]

theorem getLsbD_mask (S : Finset ℕ) (j k : ℕ) (hk : k < 8) :
    (mask S j).getLsbD k = decide (8 * j + k ∈ S) := by
  rw [mask, getLsbD_load _ k hk, List.getD_eq_getElem _ _ (by simpa using hk)]
  simp [pattern]

theorem byteBits_xor_mask (S : Finset ℕ) (b : BitVec 8) (j : ℕ) :
    byteBits (b ^^^ mask S j) =
      List.zipWith (· ^^ ·) (byteBits b) (pattern S (8 * j) 8) := by
  apply List.ext_getElem
  · simp
  · intro k hk _hk'
    have hk8 : k < 8 := by simpa using hk
    simp only [byteBits, pattern, List.getElem_map, List.getElem_range, List.getElem_zipWith,
      BitVec.getLsbD_xor]
    rw [getLsbD_mask S j k hk8]

theorem bits_flipFrom (S : Finset ℕ) (a : ℕ) (bytes : List (BitVec 8)) :
    bits (flipFrom S a bytes) =
      List.zipWith (· ^^ ·) (bits bytes) (pattern S (8 * a) (8 * bytes.length)) := by
  induction bytes generalizing a with
  | nil => rfl
  | cons b bytes ih =>
      have hlen : 8 * (b :: bytes).length = 8 + 8 * bytes.length := by
        rw [List.length_cons]
        omega
      rw [flipFrom, bits_cons, bits_cons, ih, byteBits_xor_mask, hlen, pattern_add,
        List.zipWith_append (by simp)]
      have hnext : 8 * (a + 1) = 8 * a + 8 := by omega
      rw [hnext]

theorem mask_eq_zero_iff (S : Finset ℕ) (j : ℕ) :
    mask S j = 0#8 ↔ ∀ i, 8 * j ≤ i → i < 8 * j + 8 → i ∉ S := by
  constructor
  · intro hzero i hlo hhi hi
    have hbit := getLsbD_mask S j (i - 8 * j) (by omega)
    have hadd : 8 * j + (i - 8 * j) = i := by omega
    rw [hzero, hadd] at hbit
    simp [hi] at hbit
  · intro hclear
    apply BitVec.eq_of_getLsbD_eq
    intro k hk
    rw [getLsbD_mask S j k hk]
    simpa using hclear (8 * j + k) (by omega) (by omega)

/-! ## What one more error adds -/

section Syndrome

variable {w : ℕ} (poly : BitVec w)

theorem run_pattern_insert {S : Finset ℕ} {a n i : ℕ} (hai : a ≤ i) (hin : i < a + n)
    (hS : i ∉ S) :
    run poly 0#w (pattern (insert i S) a n) =
      run poly 0#w (pattern S a n) ^^^ (step poly)^[a + n - i] 1#w := by
  induction n with
  | zero => omega
  | succ n ih =>
      rw [pattern_succ, pattern_succ, run_append, run_append, run_cons, run_nil, run_cons, run_nil]
      by_cases hlast : i = a + n
      · -- the new error is the last bit fed
        have hsame : pattern (insert i S) a n = pattern S a n := by
          apply pattern_congr
          intro j _hj hjn
          have hne : j ≠ i := by omega
          simp [hne]
        have hbit : decide (a + n ∈ S) = false := by simpa [hlast] using hS
        have hbit' : decide (a + n ∈ insert i S) = true := by simp [hlast]
        have hsplit := feed_xor poly (run poly 0#w (pattern S a n)) 0#w false true
        have hexp : a + (n + 1) - i = 1 := by omega
        rw [hsame, hbit, hbit', hexp]
        simpa [feed] using hsplit
      · have hbit : decide (a + n ∈ insert i S) = decide (a + n ∈ S) := by
          have hne : ¬ a + n = i := fun h ↦ hlast h.symm
          simp [hne]
        have hsplit := feed_xor poly (run poly 0#w (pattern S a n))
          ((step poly)^[a + n - i] 1#w) (decide (a + n ∈ S)) false
        have hexp : a + (n + 1) - i = (a + n - i) + 1 := by omega
        rw [hbit, ih (by omega), hexp, iterate_succ_apply']
        simpa [feed] using hsplit

theorem pattern_insert_outside {S : Finset ℕ} {a n i : ℕ} (hout : i < a ∨ a + n ≤ i) :
    pattern (insert i S) a n = pattern S a n := by
  apply pattern_congr
  intro j hj hjn
  have hne : j ≠ i := by omega
  simp [hne]

theorem mask_insert {S : Finset ℕ} {i : ℕ} (j : ℕ) (hS : i ∉ S) :
    mask (insert i S) j =
      mask S j ^^^ (if 8 * j ≤ i ∧ i < 8 * j + 8 then BitVec.twoPow 8 (i - 8 * j) else 0#8) := by
  apply BitVec.eq_of_getLsbD_eq
  intro k hk
  rw [getLsbD_mask _ j k hk, BitVec.getLsbD_xor, getLsbD_mask _ j k hk]
  by_cases heq : 8 * j + k = i
  · have hin : 8 * j ≤ i ∧ i < 8 * j + 8 := by omega
    have hk' : i - 8 * j = k := by omega
    rw [if_pos hin, hk']
    simp [heq, hS, hk]
  · have hout : (if 8 * j ≤ i ∧ i < 8 * j + 8 then BitVec.twoPow 8 (i - 8 * j)
        else 0#8).getLsbD k = false := by
      split
      · have hne : ¬ i - 8 * j = k := by omega
        simp [hne]
      · simp
    rw [hout]
    simp [heq]

/-- A pattern that leaves traces only inside one stretch no longer than the
register, and some there, has a run that does not vanish. -/
theorem run_pattern_ne_zero_of_burst (htop : poly.getLsbD (w - 1) = true) {S : Finset ℕ}
    {a n lo : ℕ} (hne : ∃ i ∈ S, a ≤ i ∧ i < a + n)
    (hburst : ∀ i ∈ S, lo ≤ i ∧ i < lo + w) :
    run poly 0#w (pattern S a n) ≠ 0#w := by
  obtain ⟨i₀, hi₀, hlo₀, hhi₀⟩ := hne
  have hwin₀ := hburst i₀ hi₀
  -- the stretch is cut down to the part of it that lies inside the message
  let first := max a lo
  let len := min (a + n) (lo + w) - first
  have hfirst : a ≤ first := le_max_left a lo
  have hsplit : n = (first - a) + len + (a + n - (first + len)) := by omega
  have hbefore : pattern S a (first - a) = List.replicate (first - a) false := by
    apply pattern_eq_replicate
    intro i _hi hlt hmem
    have hwin := hburst i hmem
    omega
  have hafter : pattern S (first + len) (a + n - (first + len)) =
      List.replicate (a + n - (first + len)) false := by
    apply pattern_eq_replicate
    intro i hge hlt hmem
    have hwin := hburst i hmem
    omega
  have hcut : pattern S a n = List.replicate (first - a) false ++ pattern S first len ++
      List.replicate (a + n - (first + len)) false := by
    have hstart : a + (first - a) = first := by omega
    have hend : a + (first - a + len) = first + len := by omega
    calc
      pattern S a n = pattern S a ((first - a) + len + (a + n - (first + len))) := by
        rw [← hsplit]
      _ = _ := by
        rw [pattern_add, pattern_add, hbefore, hstart, hend, hafter]
  rw [hcut]
  apply run_burst_ne_zero poly htop
  · rw [length_pattern]
    omega
  · apply true_mem_pattern hi₀ <;> omega

end Syndrome

end BitErrors
