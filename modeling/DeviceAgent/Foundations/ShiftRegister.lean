import Mathlib

/-!
# Linear feedback registers

A reflected cyclic redundancy check is a register of `w` bits that is shifted
towards its low end.  Whenever a one falls out, a fixed feedback word is added
modulo two.  Bit `w - 1` stands for the polynomial `1` and each shift
multiplies by `x`, so every statement below is about residues modulo a
polynomial whose low part is the feedback word, written in reflected order.
-/

namespace ShiftRegister

open Function

variable {w : ℕ} (poly : BitVec w)

/-- One shift of the register. -/
def step (c : BitVec w) : BitVec w :=
  if c.getLsbD 0 then (c >>> 1) ^^^ poly else c >>> 1

@[simp] theorem step_zero : step poly 0#w = 0#w := by
  simp [step]

theorem step_xor (a b : BitVec w) :
    step poly (a ^^^ b) = step poly a ^^^ step poly b := by
  unfold step
  rw [BitVec.getLsbD_xor, BitVec.ushiftRight_xor_distrib]
  cases ha : a.getLsbD 0 <;> cases hb : b.getLsbD 0 <;>
    simp only [Bool.false_xor, Bool.true_xor, Bool.not_false, Bool.not_true,
      Bool.false_eq_true, if_true, if_false]
  · rw [BitVec.xor_assoc]
  · rw [BitVec.xor_assoc, BitVec.xor_assoc, BitVec.xor_comm poly]
  · have hcancel : b >>> 1 = poly ^^^ (b >>> 1 ^^^ poly) := by
      rw [BitVec.xor_comm poly, BitVec.xor_assoc, BitVec.xor_self, BitVec.xor_zero]
    rw [BitVec.xor_assoc, ← hcancel]

@[simp] theorem iterate_zero_word (n : ℕ) : (step poly)^[n] 0#w = 0#w :=
  iterate_fixed (step_zero poly) n

theorem iterate_xor (n : ℕ) (a b : BitVec w) :
    (step poly)^[n] (a ^^^ b) = (step poly)^[n] a ^^^ (step poly)^[n] b := by
  induction n generalizing a b with
  | zero => rfl
  | succ n ih => rw [iterate_succ_apply, step_xor, ih, ← iterate_succ_apply, ← iterate_succ_apply]

theorem step_of_even {c : BitVec w} (hc : c.getLsbD 0 = false) : step poly c = c >>> 1 := by
  simp [step, hc]

/-- Only the zero word is shifted to zero when the feedback word reaches the
top bit: a one that falls out leaves its mark there. -/
theorem eq_zero_of_step_eq_zero (htop : poly.getLsbD (w - 1) = true) {c : BitVec w}
    (hc : step poly c = 0#w) : c = 0#w := by
  have hlow : c.getLsbD 0 = false := by
    by_contra hne
    have hset : c.getLsbD 0 = true := by simpa using hne
    have hbit := congrArg (fun x ↦ x.getLsbD (w - 1)) hc
    have hw : 0 < w := BitVec.lt_of_getLsbD hset
    have hout : c.getLsbD (1 + (w - 1)) = false := BitVec.getLsbD_of_ge c _ (by omega)
    simp [step, hset, htop, hout] at hbit
  rw [step_of_even poly hlow] at hc
  apply BitVec.eq_of_getLsbD_eq
  intro i hi
  cases i with
  | zero => simp [hlow]
  | succ i =>
      have hbit := congrArg (fun x ↦ x.getLsbD i) hc
      simpa [Nat.add_comm] using hbit

theorem step_injective (htop : poly.getLsbD (w - 1) = true) : Injective (step poly) := by
  intro a b hab
  have hdiff : step poly (a ^^^ b) = 0#w := by
    rw [step_xor, hab, BitVec.xor_self]
  have hzero := eq_zero_of_step_eq_zero poly htop hdiff
  have hback := congrArg (fun x ↦ x ^^^ b) hzero
  simpa [BitVec.xor_assoc] using hback

theorem iterate_ne_zero (htop : poly.getLsbD (w - 1) = true) (n : ℕ) {c : BitVec w}
    (hc : c ≠ 0#w) : (step poly)^[n] c ≠ 0#w := by
  intro hzero
  apply hc
  apply (step_injective poly htop).iterate n
  rw [hzero, iterate_zero_word]

theorem iterate_of_low_clear (k : ℕ) {c : BitVec w}
    (hlow : ∀ i < k, c.getLsbD i = false) : (step poly)^[k] c = c >>> k := by
  induction k with
  | zero => simp
  | succ k ih =>
      rw [iterate_succ_apply', ih (fun i hi ↦ hlow i (by omega)), step_of_even]
      · rw [← BitVec.shiftRight_add]
      · simpa using hlow k (by omega)

/-- Shifting out `k` bits at once: the low part goes through the feedback, the
rest just moves down.  This is what a table of all low parts is for. -/
theorem iterate_eq_low_xor_high (k : ℕ) (c : BitVec w) :
    (step poly)^[k] c = (step poly)^[k] ((c.setWidth k).setWidth w) ^^^ (c >>> k) := by
  have hsplit : c = (c.setWidth k).setWidth w ^^^ ((c >>> k) <<< k) := by
    apply BitVec.eq_of_getLsbD_eq
    intro i hi
    simp only [BitVec.getLsbD_xor, BitVec.getLsbD_setWidth, BitVec.getLsbD_shiftLeft,
      BitVec.getLsbD_ushiftRight]
    by_cases hik : i < k
    · simp [hi, hik]
    · have hadd : k + (i - k) = i := by omega
      simp [hi, hik, hadd]
  have hhigh : (step poly)^[k] ((c >>> k) <<< k) = c >>> k := by
    rw [iterate_of_low_clear poly k (fun i hi ↦ by simp [hi])]
    apply BitVec.eq_of_getLsbD_eq
    intro i hi
    simp only [BitVec.getLsbD_ushiftRight, BitVec.getLsbD_shiftLeft]
    by_cases hki : k + i < w
    · simp [hki]
    · simp [hki, BitVec.getLsbD_of_ge c (k + i) (by omega)]
  nth_rewrite 1 [hsplit]
  rw [iterate_xor, hhigh]

/-! ## Feeding bits -/

/-- Add one message bit at the low end and shift. -/
def feed (c : BitVec w) (b : Bool) : BitVec w :=
  step poly (if b then c ^^^ 1#w else c)

/-- The register after a sequence of message bits. -/
def run (c : BitVec w) (bits : List Bool) : BitVec w :=
  bits.foldl (feed poly) c

@[simp] theorem run_nil (c : BitVec w) : run poly c [] = c := rfl

@[simp] theorem run_cons (c : BitVec w) (b : Bool) (bits : List Bool) :
    run poly c (b :: bits) = run poly (feed poly c b) bits := rfl

theorem run_append (c : BitVec w) (xs ys : List Bool) :
    run poly c (xs ++ ys) = run poly (run poly c xs) ys :=
  List.foldl_append

theorem feed_xor (a b : BitVec w) (x y : Bool) :
    feed poly (a ^^^ b) (x ^^ y) = feed poly a x ^^^ feed poly b y := by
  unfold feed
  rw [← step_xor]
  congr 1
  cases x <;> cases y <;> simp only [Bool.false_xor, Bool.true_xor, Bool.not_false,
    Bool.not_true, Bool.false_eq_true, if_true, if_false]
  · rw [BitVec.xor_assoc]
  · rw [BitVec.xor_assoc, BitVec.xor_assoc, BitVec.xor_comm b]
  · have hcancel : b = 1#w ^^^ (b ^^^ 1#w) := by
      rw [BitVec.xor_comm 1#w, BitVec.xor_assoc, BitVec.xor_self, BitVec.xor_zero]
    rw [BitVec.xor_assoc, ← hcancel]

theorem run_zipWith_xor (a b : BitVec w) {xs ys : List Bool} (hlen : xs.length = ys.length) :
    run poly (a ^^^ b) (List.zipWith (· ^^ ·) xs ys) = run poly a xs ^^^ run poly b ys := by
  induction xs generalizing a b ys with
  | nil =>
      have hys : ys = [] := List.length_eq_zero_iff.mp hlen.symm
      simp [hys]
  | cons x xs ih =>
      cases ys with
      | nil => simp at hlen
      | cons y ys =>
          rw [List.zipWith_cons_cons, run_cons, run_cons, run_cons, feed_xor]
          exact ih _ _ (by simpa using hlen)

/-- The word whose low bits are the given ones, first bit lowest. -/
def load : List Bool → BitVec w
  | [] => 0#w
  | b :: bits => (load bits <<< 1) ^^^ (if b then 1#w else 0#w)

theorem getLsbD_load (bits : List Bool) (i : ℕ) (hi : i < w) :
    (load bits : BitVec w).getLsbD i = bits.getD i false := by
  induction bits generalizing i with
  | nil => simp [load]
  | cons b bits ih =>
      have hw : 0 < w := Nat.zero_lt_of_lt hi
      cases i with
      | zero => cases b <;> simp [load, hw]
      | succ i =>
          have hprev := ih i (by omega)
          rw [BitVec.getLsbD_eq_getElem (by omega)] at hprev
          cases b <;> simpa [load, hi] using hprev

/-- A message that fits the register may be added to it at once: the bits wait
in place until they reach the low end. -/
theorem run_eq_iterate_load (c : BitVec w) (bits : List Bool) (hlen : bits.length ≤ w) :
    run poly c bits = (step poly)^[bits.length] (c ^^^ load bits) := by
  induction bits generalizing c with
  | nil => simp [load]
  | cons b bits ih =>
      have hshort : bits.length < w := hlen
      have hout : (load bits : BitVec w).getLsbD (w - 1) = false := by
        rw [getLsbD_load bits (w - 1) (by omega)]
        exact List.getD_eq_default _ _ (by omega)
      have hback : step poly (load bits <<< 1 : BitVec w) = load bits := by
        rw [step_of_even poly (by simp)]
        apply BitVec.eq_of_getLsbD_eq
        intro i hi
        by_cases hlast : i = w - 1
        · subst hlast
          rw [hout]
          simp only [BitVec.getLsbD_ushiftRight]
          exact BitVec.getLsbD_of_ge _ _ (by omega)
        · have hlt : 1 + i < w := by omega
          simp [hlt, BitVec.getLsbD_eq_getElem hi]
      have hfeed : step poly (c ^^^ load (b :: bits)) = feed poly c b ^^^ load bits := by
        calc
          step poly (c ^^^ load (b :: bits)) =
              step poly ((if b then c ^^^ 1#w else c) ^^^ (load bits <<< 1)) := by
            congr 1
            cases b
            · simp [load]
            · simp only [load, if_true]
              rw [BitVec.xor_comm (load bits <<< 1), ← BitVec.xor_assoc]
          _ = feed poly c b ^^^ load bits := by
            rw [step_xor, hback]
            rfl
      rw [run_cons, ih _ (by omega), List.length_cons, iterate_succ_apply, hfeed]

theorem run_replicate_false (c : BitVec w) (n : ℕ) :
    run poly c (List.replicate n false) = (step poly)^[n] c := by
  induction n generalizing c with
  | zero => rfl
  | succ n ih =>
      rw [List.replicate_succ, run_cons, ih, iterate_succ_apply]
      simp [feed]

/-- A burst: errors confined to one stretch no longer than the register, with
anything but a clean stretch, are never invisible. -/
theorem run_burst_ne_zero (htop : poly.getLsbD (w - 1) = true) (before after : ℕ)
    {burst : List Bool} (hlen : burst.length ≤ w) (hset : true ∈ burst) :
    run poly 0#w (List.replicate before false ++ burst ++ List.replicate after false) ≠ 0#w := by
  rw [run_append, run_append, run_replicate_false, run_replicate_false, iterate_zero_word,
    run_eq_iterate_load poly _ _ hlen, BitVec.zero_xor]
  apply iterate_ne_zero poly htop
  apply iterate_ne_zero poly htop
  intro hzero
  obtain ⟨i, hi, hbit⟩ := List.getElem_of_mem hset
  have hload := getLsbD_load (w := w) burst i (by omega)
  rw [hzero, List.getD_eq_getElem _ _ hi, hbit] at hload
  simp at hload

theorem feed_injective (htop : poly.getLsbD (w - 1) = true) (b : Bool) :
    Injective fun c : BitVec w ↦ feed poly c b := by
  intro c d h
  have hin := step_injective poly htop h
  cases b with
  | false => exact hin
  | true => exact BitVec.xor_left_inj 1#w |>.mp hin

theorem run_injective (htop : poly.getLsbD (w - 1) = true) (bits : List Bool) :
    Injective fun c : BitVec w ↦ run poly c bits := by
  induction bits with
  | nil => exact fun _ _ h ↦ h
  | cons b bits ih => exact fun _ _ h ↦ feed_injective poly htop b (ih h)

/-- Messages that fit the register are told apart from every start. -/
theorem run_message_injective (htop : poly.getLsbD (w - 1) = true) (c : BitVec w)
    {xs ys : List Bool} (hlen : xs.length = ys.length) (hshort : xs.length ≤ w)
    (h : run poly c xs = run poly c ys) : xs = ys := by
  rw [run_eq_iterate_load poly c xs hshort, run_eq_iterate_load poly c ys (hlen ▸ hshort), hlen]
    at h
  have hload : (load xs : BitVec w) = load ys :=
    BitVec.xor_right_inj c |>.mp ((step_injective poly htop).iterate ys.length h)
  apply List.ext_getElem hlen
  intro i hi hi'
  have hbit := congrArg (fun v ↦ v.getLsbD i) hload
  simpa [getLsbD_load _ i (Nat.lt_of_lt_of_le hi hshort), hi, hi'] using hbit

/-! ## The orbit of the word for one -/

/-- The word that stands for the polynomial `1`. -/
def unit : BitVec w := BitVec.twoPow w (w - 1)

theorem iterate_unit {i : ℕ} (hi : i < w) :
    (step poly)^[i] unit = BitVec.twoPow w (w - 1 - i) := by
  induction i with
  | zero => rfl
  | succ i ih =>
      rw [iterate_succ_apply', ih (by omega), step_of_even]
      · apply BitVec.eq_of_getLsbD_eq
        intro j hj
        simp only [BitVec.getLsbD_ushiftRight, BitVec.getLsbD_twoPow]
        have hj' : (w - 1 - i = 1 + j) = (w - 1 - (i + 1) = j) := by
          apply propext
          omega
        have hlt : (w - 1 - i < w) = (w - 1 - (i + 1) < w) := by
          apply propext
          omega
        simp only [hj', hlt]
      · simp only [BitVec.getLsbD_twoPow]
        have hne : ¬ w - 1 - i = 0 := by omega
        simp [hne]

theorem iterate_unit_injOn {i j : ℕ}
    (hi : i < minimalPeriod (step poly) unit) (hj : j < minimalPeriod (step poly) unit)
    (hij : i ≠ j) : (step poly)^[i] unit ^^^ (step poly)^[j] unit ≠ 0#w := by
  intro hzero
  apply hij
  apply (iterate_eq_iterate_iff_of_lt_minimalPeriod hi hj).mp
  have hback := congrArg (fun x ↦ x ^^^ (step poly)^[j] unit) hzero
  simpa [BitVec.xor_assoc] using hback

/-- The residue `c` acting on `v`: bit `i` of `c` contributes `x ^ (w - 1 - i)`
times `v`. -/
def act (c v : BitVec w) : BitVec w :=
  (List.range w).foldr
    (fun i acc ↦ acc ^^^ (if c.getLsbD i then (step poly)^[w - 1 - i] v else 0#w)) 0#w

theorem foldr_xor_step (c v : BitVec w) (is : List ℕ) :
    is.foldr (fun i acc ↦ acc ^^^
        (if c.getLsbD i then (step poly)^[w - 1 - i] (step poly v) else 0#w)) 0#w =
      step poly (is.foldr (fun i acc ↦ acc ^^^
        (if c.getLsbD i then (step poly)^[w - 1 - i] v else 0#w)) 0#w) := by
  induction is with
  | nil => simp
  | cons i is ih =>
      rw [List.foldr_cons, List.foldr_cons, ih, step_xor]
      congr 1
      cases c.getLsbD i
      · simp
      · simp only [if_true]
        rw [← iterate_succ_apply, iterate_succ_apply']

theorem act_iterate (c v : BitVec w) (n : ℕ) :
    act poly c ((step poly)^[n] v) = (step poly)^[n] (act poly c v) := by
  induction n with
  | zero => rfl
  | succ n ih =>
      rw [iterate_succ_apply', iterate_succ_apply', ← ih]
      exact foldr_xor_step poly c _ _

theorem getLsbD_foldr_units (c : BitVec w) (j n : ℕ) (hn : n ≤ w) :
    ((List.range n).foldr (fun i acc ↦ acc ^^^
      (if c.getLsbD i then (step poly)^[w - 1 - i] unit else 0#w)) 0#w).getLsbD j =
      (decide (j < n) && c.getLsbD j) := by
  have hsum : ∀ (is : List ℕ), is.Nodup → (∀ i ∈ is, i < w) →
      (is.foldr (fun i acc ↦ acc ^^^
        (if c.getLsbD i then (step poly)^[w - 1 - i] unit else 0#w)) 0#w).getLsbD j =
        (decide (j ∈ is) && c.getLsbD j) := by
    intro is hnodup hlt
    induction is with
    | nil => simp
    | cons i is ih =>
        have hi : i < w := hlt i (by simp)
        have hrest := ih (List.nodup_cons.mp hnodup).2 (fun k hk ↦ hlt k (by simp [hk]))
        have hnotin : i ∉ is := (List.nodup_cons.mp hnodup).1
        rw [List.foldr_cons, BitVec.getLsbD_xor, hrest, iterate_unit poly (by omega)]
        have hexp : w - 1 - (w - 1 - i) = i := by omega
        rw [hexp]
        by_cases hji : j = i
        · subst hji
          cases hc : c.getLsbD j <;> simp [hnotin, hi]
        · have hij : ¬ i = j := fun h ↦ hji h.symm
          cases hc : c.getLsbD i <;> simp [hji, hij]
  rw [hsum (List.range n) List.nodup_range (fun i hi ↦ by
    have := List.mem_range.mp hi
    omega)]
  simp

theorem act_unit (c : BitVec w) : act poly c unit = c := by
  apply BitVec.eq_of_getLsbD_eq
  intro j hj
  rw [act, getLsbD_foldr_units poly c j w le_rfl]
  simp [hj]

theorem act_iterate_unit (m n : ℕ) :
    act poly ((step poly)^[m] unit) ((step poly)^[n] unit) = (step poly)^[m + n] unit := by
  rw [act_iterate, act_unit, ← iterate_add_apply, Nat.add_comm]

/-- The powers `x ^ (2 ^ k)`, by repeated squaring. -/
def square : ℕ → BitVec w
  | 0 => step poly unit
  | k + 1 => act poly (square k) (square k)

theorem square_eq_iterate (k : ℕ) : square poly k = (step poly)^[2 ^ k] unit := by
  induction k with
  | zero => rfl
  | succ k ih =>
      rw [square, ih, act_iterate_unit, pow_succ, Nat.mul_two]

theorem minimalPeriod_eq_of_prime_quotients {α : Type*} {f : α → α} {x : α} {n : ℕ}
    (hper : IsPeriodicPt f n x)
    (hquot : ∀ p : ℕ, p.Prime → p ∣ n → ¬ IsPeriodicPt f (n / p) x) :
    minimalPeriod f x = n := by
  obtain ⟨a, ha⟩ := hper.minimalPeriod_dvd
  by_cases ha1 : a = 1
  · rw [ha, ha1, Nat.mul_one]
  · exfalso
    obtain ⟨b, hb⟩ := a.minFac_dvd
    have hpos : 0 < a.minFac := Nat.minFac_pos a
    have hfactor : n = a.minFac * (minimalPeriod f x * b) := by
      calc
        n = minimalPeriod f x * (a.minFac * b) := by rw [← hb, ← ha]
        _ = a.minFac * (minimalPeriod f x * b) := by ring
    apply hquot a.minFac (Nat.minFac_prime ha1) ⟨_, hfactor⟩
    rw [hfactor, Nat.mul_div_cancel_left _ hpos]
    exact (isPeriodicPt_minimalPeriod f x).mul_const b

/-! ## Parity -/

/-- The number of ones of a word modulo two. -/
def parity (c : BitVec w) : ZMod 2 :=
  ∑ i ∈ Finset.range w, if c.getLsbD i then 1 else 0

theorem parity_xor (a b : BitVec w) : parity (a ^^^ b) = parity a + parity b := by
  unfold parity
  rw [← Finset.sum_add_distrib]
  apply Finset.sum_congr rfl
  intro i _hi
  rw [BitVec.getLsbD_xor]
  cases a.getLsbD i <;> cases b.getLsbD i <;> decide

theorem parity_ushiftRight_one (c : BitVec w) :
    parity c = parity (c >>> 1) + (if c.getLsbD 0 then 1 else 0) := by
  unfold parity
  have hout : c.getLsbD w = false := BitVec.getLsbD_of_ge c w le_rfl
  have hextend : (∑ i ∈ Finset.range (w + 1), if c.getLsbD i then (1 : ZMod 2) else 0) =
      ∑ i ∈ Finset.range w, if c.getLsbD i then (1 : ZMod 2) else 0 := by
    rw [Finset.sum_range_succ, hout]
    simp
  rw [← hextend, Finset.sum_range_succ']
  simp [Nat.add_comm]

/-- A feedback word of odd weight, that is a factor `x + 1` of the polynomial,
makes the shift keep the parity. -/
theorem parity_step (hodd : parity poly = 1) (c : BitVec w) :
    parity (step poly c) = parity c := by
  rw [parity_ushiftRight_one c]
  unfold step
  cases c.getLsbD 0
  · simp
  · simp [parity_xor, hodd]

theorem parity_iterate (hodd : parity poly = 1) (n : ℕ) (c : BitVec w) :
    parity ((step poly)^[n] c) = parity c := by
  induction n with
  | zero => rfl
  | succ n ih => rw [iterate_succ_apply', parity_step poly hodd, ih]

theorem parity_unit (hw : 0 < w) : parity (unit : BitVec w) = 1 := by
  unfold parity unit
  rw [Finset.sum_eq_single (w - 1)]
  · simp [hw]
  · intro i _hi hne
    have hne' : ¬ w - 1 = i := fun h ↦ hne h.symm
    simp [hne']
  · intro hnotin
    exact absurd (Finset.mem_range.mpr (by omega)) hnotin

end ShiftRegister
