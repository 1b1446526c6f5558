import DeviceAgent.Packet

/-!
# What the frame check detects

Flipping bits of a frame adds to the checked register the run of the error
pattern, and to the stored value the pattern's own bits.  The frame is accepted
only if the two agree.  Their sum is a sum of distinct powers of `x`, one for
each flipped bit: the stored value carries the exponents 0 to 15, high byte
first, and the checked bytes those from 16 on.
-/

namespace DeviceAgent

open Function
open ShiftRegister BitErrors

/-- The difference between computed and stored value that a pattern causes in a
frame with `n` checked bytes. -/
def defect (S : Finset ℕ) (n : ℕ) : Word :=
  run feedback 0#16 (pattern S 24 (8 * n)) ^^^ (mask S (3 + n) ++ mask S (3 + n + 1))

/-- The power of `x` that position `i` of such a frame contributes. -/
def exponent (n i : ℕ) : ℕ :=
  if i < 24 + 8 * n then 24 + 8 * n - i + 15
  else if i < 24 + 8 * n + 8 then 7 - (i - (24 + 8 * n))
  else 15 - (i - (24 + 8 * n + 8))

theorem one_eq_iterate_unit : 1#16 = (step feedback)^[15] (unit : Word) := by
  rw [iterate_unit feedback (by omega)]
  decide

theorem append_twoPow_zero {k : ℕ} (hk : k < 8) :
    (BitVec.twoPow 8 k ++ 0#8 : Word) = (step feedback)^[7 - k] unit := by
  rw [iterate_unit feedback (by omega)]
  interval_cases k <;> decide

theorem append_zero_twoPow {k : ℕ} (hk : k < 8) :
    (0#8 ++ BitVec.twoPow 8 k : Word) = (step feedback)^[15 - k] unit := by
  rw [iterate_unit feedback (by omega)]
  interval_cases k <;> decide

theorem append_xor_append (a b c d : Byte) :
    (a ^^^ b) ++ (c ^^^ d) = (a ++ c) ^^^ (b ++ d) := by
  apply BitVec.eq_of_getLsbD_eq
  intro i _hi
  rw [BitVec.getLsbD_xor, BitVec.getLsbD_append, BitVec.getLsbD_append, BitVec.getLsbD_append]
  split
  · exact BitVec.getLsbD_xor
  · exact BitVec.getLsbD_xor

theorem defect_insert {S : Finset ℕ} {n i : ℕ} (hlo : 24 ≤ i) (hhi : i < 24 + 8 * n + 16)
    (hS : i ∉ S) :
    defect (insert i S) n = defect S n ^^^ (step feedback)^[exponent n i] unit := by
  unfold defect
  rw [mask_insert (3 + n) hS, mask_insert (3 + n + 1) hS, append_xor_append]
  by_cases hbody : i < 24 + 8 * n
  · have hnot₁ : ¬ (8 * (3 + n) ≤ i ∧ i < 8 * (3 + n) + 8) := by omega
    have hnot₂ : ¬ (8 * (3 + n + 1) ≤ i ∧ i < 8 * (3 + n + 1) + 8) := by omega
    have hexp : exponent n i = (24 + 8 * n - i) + 15 := by simp [exponent, hbody]
    rw [if_neg hnot₁, if_neg hnot₂, run_pattern_insert feedback hlo hbody hS, hexp,
      iterate_add_apply, ← one_eq_iterate_unit, BitVec.xor_assoc, BitVec.xor_assoc]
    congr 1
    rw [BitVec.xor_comm]
    congr 1
    exact BitVec.xor_zero
  · rw [pattern_insert_outside (Or.inr (by omega)), BitVec.xor_assoc]
    congr 2
    by_cases hhigh : i < 24 + 8 * n + 8
    · have hin : 8 * (3 + n) ≤ i ∧ i < 8 * (3 + n) + 8 := by omega
      have hnot : ¬ (8 * (3 + n + 1) ≤ i ∧ i < 8 * (3 + n + 1) + 8) := by omega
      have hbit : i - 8 * (3 + n) = i - (24 + 8 * n) := by omega
      have hexp : exponent n i = 7 - (i - (24 + 8 * n)) := by simp [exponent, hbody, hhigh]
      rw [if_pos hin, if_neg hnot, hexp, hbit]
      exact append_twoPow_zero (by omega)
    · have hnot : ¬ (8 * (3 + n) ≤ i ∧ i < 8 * (3 + n) + 8) := by omega
      have hin : 8 * (3 + n + 1) ≤ i ∧ i < 8 * (3 + n + 1) + 8 := by omega
      have hbit : i - 8 * (3 + n + 1) = i - (24 + 8 * n + 8) := by omega
      have hexp : exponent n i = 15 - (i - (24 + 8 * n + 8)) := by
        simp [exponent, hbody, hhigh]
      rw [if_neg hnot, if_pos hin, hexp, hbit]
      exact append_zero_twoPow (by omega)

theorem defect_empty (n : ℕ) : defect ∅ n = 0#16 := by
  have hmask : ∀ j, mask ∅ j = 0#8 := by
    intro j
    apply (mask_eq_zero_iff ∅ j).mpr
    simp
  unfold defect
  rw [pattern_eq_replicate (by simp), run_replicate_false, iterate_zero_word, hmask, hmask]
  decide

theorem exponent_lt {n i : ℕ} (hlo : 24 ≤ i) (hn : n ≤ 4050) : exponent n i < 32767 := by
  unfold exponent
  split
  · omega
  · split <;> omega

theorem exponent_ne {n i j : ℕ} (hi : i < 24 + 8 * n + 16)
    (hj : j < 24 + 8 * n + 16) (hij : i ≠ j) : exponent n i ≠ exponent n j := by
  unfold exponent
  split <;> split <;> (try split) <;> (try split) <;> omega

/-- At most three errors never cancel: an odd number leaves an odd register, and
two leave two different powers of `x`, whose order exceeds every distance that
fits a frame. -/
theorem defect_ne_zero_of_card_le_three {S : Finset ℕ} {n : ℕ} (hn : n ≤ 4050)
    (hpos : 1 ≤ S.card) (hcard : S.card ≤ 3) (hS : ∀ i ∈ S, 24 ≤ i ∧ i < 24 + 8 * n + 16) :
    defect S n ≠ 0#16 := by
  have hpar : ∀ m, parity ((step feedback)^[m] (unit : Word)) = 1 := by
    intro m
    rw [parity_iterate feedback parity_feedback, parity_unit (by omega)]
  have hthree : S.card = 1 ∨ S.card = 2 ∨ S.card = 3 := by omega
  rcases hthree with h1 | h2 | h3
  · obtain ⟨a, rfl⟩ := Finset.card_eq_one.mp h1
    obtain ⟨ha, ha'⟩ := hS a (by simp)
    intro hzero
    have hp := congrArg parity hzero
    rw [← insert_empty_eq, defect_insert ha ha' (by simp), defect_empty, parity_xor, hpar] at hp
    revert hp
    simp
  · obtain ⟨a, b, hab, rfl⟩ := Finset.card_eq_two.mp h2
    obtain ⟨ha, ha'⟩ := hS a (by simp)
    obtain ⟨hb, hb'⟩ := hS b (by simp)
    rw [defect_insert ha ha' (by simpa using hab), ← insert_empty_eq,
      defect_insert hb hb' (by simp), defect_empty, BitVec.zero_xor]
    apply iterate_unit_injOn
    · rw [minimalPeriod_unit]
      exact exponent_lt hb hn
    · rw [minimalPeriod_unit]
      exact exponent_lt ha hn
    · exact exponent_ne hb' ha' (Ne.symm hab)
  · obtain ⟨a, b, c, hab, hac, hbc, rfl⟩ := Finset.card_eq_three.mp h3
    obtain ⟨ha, ha'⟩ := hS a (by simp)
    obtain ⟨hb, hb'⟩ := hS b (by simp)
    obtain ⟨hc, hc'⟩ := hS c (by simp)
    intro hzero
    have hp := congrArg parity hzero
    rw [defect_insert ha ha' (by simp [hab, hac]), defect_insert hb hb' (by simpa using hbc),
      ← insert_empty_eq, defect_insert hc hc' (by simp), defect_empty, parity_xor, parity_xor,
      parity_xor, hpar, hpar, hpar] at hp
    revert hp
    decide

/-! ## Flipped frames -/

theorem xor_eq_self_iff (a b : Byte) : a ^^^ b = a ↔ b = 0#8 := by
  constructor
  · intro h
    have hback := congrArg (fun x ↦ a ^^^ x) h
    simpa [← BitVec.xor_assoc] using hback
  · rintro rfl
    exact BitVec.xor_zero

/-- A flipped frame that is still accepted has its last byte untouched and no
defect. -/
theorem defect_eq_zero_of_accepted (p : Packet) (content : List Byte) (machine : Byte)
    (S : Finset ℕ)
    (hok : isFrameCRCOK (flip S (p.buildPacket content machine).strCache) = true) :
    mask S (3 + (content.length + 1) + 2) = 0#8 ∧ defect S (content.length + 1) = 0#16 := by
  let body := content ++ [ETX]
  have hlen : body.length = content.length + 1 := by simp [body]
  rw [buildPacket_strCache] at hok
  change isFrameCRCOK (flipFrom S 0 ([SOH, machine, STX] ++ (body ++ _))) = true at hok
  rw [flipFrom_append, flipFrom_append] at hok
  obtain ⟨-, heot, -, hcrc⟩ := (isFrameCRCOK_parts _ _ _ _ _ _ _).mp hok
  have hlast := (xor_eq_self_iff _ _).mp heot
  have hjoin := joinCRC_split (crc16 (~~~0#16) body)
  rw [joinCRC_eq_append] at hjoin
  rw [crc16_flipFrom, append_xor_append, hjoin] at hcrc
  simp only [List.length_cons, List.length_nil, hlen] at hlast hcrc
  refine ⟨by simpa using hlast, ?_⟩
  have hsum := congrArg (fun x ↦ crc16 (~~~0#16) body ^^^ x) hcrc
  simp only [← BitVec.xor_assoc, BitVec.xor_self, BitVec.zero_xor] at hsum
  unfold defect
  rw [show 24 = 8 * (0 + (0 + 1 + 1 + 1)) by norm_num, hsum]
  simp

/-- Strength of the frame check: up to three flipped bits anywhere behind the
head, and every alteration confined to sixteen consecutive bits of the checked
bytes, make a frame of at most 4056 bytes unacceptable. -/
theorem flipped_frame_rejected (p : Packet) (content : List Byte) (machine : Byte)
    (hcontent : 2 ≤ content.length)
    (hsize : (p.buildPacket content machine).getSize ≤ 4056) :
    (∀ S : Finset ℕ, 1 ≤ S.card → S.card ≤ 3 →
      (∀ i ∈ S, 8 * 3 ≤ i ∧ i < 8 * (p.buildPacket content machine).getSize) →
      isFrameCRCOK (flip S (p.buildPacket content machine).strCache) = false) ∧
    (∀ (S : Finset ℕ) (first : ℕ), S.Nonempty →
      (∀ i ∈ S, first ≤ i ∧ i < first + 16) →
      (∀ i ∈ S, 8 * 3 ≤ i ∧ i < 8 * (3 + (content ++ [ETX]).length)) →
      isFrameCRCOK (flip S (p.buildPacket content machine).strCache) = false) := by
  have hlen : (p.buildPacket content machine).getSize = content.length + 7 := by
    rw [Packet.getSize, buildPacket_strCache]
    simp
  constructor
  · intro S hpos hcard hS
    by_contra hok
    obtain ⟨hlast, hdefect⟩ := defect_eq_zero_of_accepted p content machine S (by simpa using hok)
    have hclear := (mask_eq_zero_iff S _).mp hlast
    apply defect_ne_zero_of_card_le_three (n := content.length + 1) (by omega) hpos hcard _ hdefect
    intro i hi
    obtain ⟨hlo, hhi⟩ := hS i hi
    refine ⟨by omega, ?_⟩
    by_contra hge
    exact hclear i (by omega) (by omega) hi
  · intro S first hne hburst hS
    by_contra hok
    obtain ⟨-, hdefect⟩ := defect_eq_zero_of_accepted p content machine S (by simpa using hok)
    have hin : ∀ i ∈ S, 24 ≤ i ∧ i < 24 + 8 * (content.length + 1) := by
      intro i hi
      obtain ⟨hlo, hhi⟩ := hS i hi
      simp only [List.length_append, List.length_cons, List.length_nil] at hhi
      omega
    have hmask : ∀ j, 3 + (content.length + 1) ≤ j → mask S j = 0#8 := by
      intro j hj
      apply (mask_eq_zero_iff S j).mpr
      intro i hlo _hhi hi
      have hbound := hin i hi
      omega
    unfold defect at hdefect
    rw [hmask _ le_rfl, hmask _ (by omega)] at hdefect
    obtain ⟨i, hi⟩ := hne
    apply run_pattern_ne_zero_of_burst feedback feedback_top ⟨i, hi, hin i hi⟩ hburst
    simpa using hdefect

theorem flipped_frame_rejected_request :
    isFrameCRCOK (flip {27, 48} ((Packet.mk [] []).buildPacket [0x72#8, 0x61#8] 1#8).strCache) =
      false :=
  (flipped_frame_rejected ⟨[], []⟩ [0x72#8, 0x61#8] 1#8 (by decide) (by decide)).1
    {27, 48} (by decide) (by decide) (by decide)

end DeviceAgent
