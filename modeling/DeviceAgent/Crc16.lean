import DeviceAgent.Foundations.BitErrors

/-!
# The table-driven CRC of the frames

`CRC16.cpp` takes a byte at a time through a table of 256 words.  Here the
table is checked entry by entry against eight single-bit shifts, after which a
whole string is one run of the bit register with feedback word `0x8408`.  The
polynomial `x ^ 16 + x ^ 12 + x ^ 5 + 1` behind it gives `x` the order 32767.
-/

namespace DeviceAgent

open Function
open ShiftRegister BitErrors

abbrev Byte := BitVec 8

abbrev Word := BitVec 16

def crcTableItut : List Word :=
  [0x0000, 0x1189, 0x2312, 0x329B, 0x4624, 0x57AD, 0x6536, 0x74BF,
    0x8C48, 0x9DC1, 0xAF5A, 0xBED3, 0xCA6C, 0xDBE5, 0xE97E, 0xF8F7,
    0x1081, 0x0108, 0x3393, 0x221A, 0x56A5, 0x472C, 0x75B7, 0x643E,
    0x9CC9, 0x8D40, 0xBFDB, 0xAE52, 0xDAED, 0xCB64, 0xF9FF, 0xE876,
    0x2102, 0x308B, 0x0210, 0x1399, 0x6726, 0x76AF, 0x4434, 0x55BD,
    0xAD4A, 0xBCC3, 0x8E58, 0x9FD1, 0xEB6E, 0xFAE7, 0xC87C, 0xD9F5,
    0x3183, 0x200A, 0x1291, 0x0318, 0x77A7, 0x662E, 0x54B5, 0x453C,
    0xBDCB, 0xAC42, 0x9ED9, 0x8F50, 0xFBEF, 0xEA66, 0xD8FD, 0xC974,
    0x4204, 0x538D, 0x6116, 0x709F, 0x0420, 0x15A9, 0x2732, 0x36BB,
    0xCE4C, 0xDFC5, 0xED5E, 0xFCD7, 0x8868, 0x99E1, 0xAB7A, 0xBAF3,
    0x5285, 0x430C, 0x7197, 0x601E, 0x14A1, 0x0528, 0x37B3, 0x263A,
    0xDECD, 0xCF44, 0xFDDF, 0xEC56, 0x98E9, 0x8960, 0xBBFB, 0xAA72,
    0x6306, 0x728F, 0x4014, 0x519D, 0x2522, 0x34AB, 0x0630, 0x17B9,
    0xEF4E, 0xFEC7, 0xCC5C, 0xDDD5, 0xA96A, 0xB8E3, 0x8A78, 0x9BF1,
    0x7387, 0x620E, 0x5095, 0x411C, 0x35A3, 0x242A, 0x16B1, 0x0738,
    0xFFCF, 0xEE46, 0xDCDD, 0xCD54, 0xB9EB, 0xA862, 0x9AF9, 0x8B70,
    0x8408, 0x9581, 0xA71A, 0xB693, 0xC22C, 0xD3A5, 0xE13E, 0xF0B7,
    0x0840, 0x19C9, 0x2B52, 0x3ADB, 0x4E64, 0x5FED, 0x6D76, 0x7CFF,
    0x9489, 0x8500, 0xB79B, 0xA612, 0xD2AD, 0xC324, 0xF1BF, 0xE036,
    0x18C1, 0x0948, 0x3BD3, 0x2A5A, 0x5EE5, 0x4F6C, 0x7DF7, 0x6C7E,
    0xA50A, 0xB483, 0x8618, 0x9791, 0xE32E, 0xF2A7, 0xC03C, 0xD1B5,
    0x2942, 0x38CB, 0x0A50, 0x1BD9, 0x6F66, 0x7EEF, 0x4C74, 0x5DFD,
    0xB58B, 0xA402, 0x9699, 0x8710, 0xF3AF, 0xE226, 0xD0BD, 0xC134,
    0x39C3, 0x284A, 0x1AD1, 0x0B58, 0x7FE7, 0x6E6E, 0x5CF5, 0x4D7C,
    0xC60C, 0xD785, 0xE51E, 0xF497, 0x8028, 0x91A1, 0xA33A, 0xB2B3,
    0x4A44, 0x5BCD, 0x6956, 0x78DF, 0x0C60, 0x1DE9, 0x2F72, 0x3EFB,
    0xD68D, 0xC704, 0xF59F, 0xE416, 0x90A9, 0x8120, 0xB3BB, 0xA232,
    0x5AC5, 0x4B4C, 0x79D7, 0x685E, 0x1CE1, 0x0D68, 0x3FF3, 0x2E7A,
    0xE70E, 0xF687, 0xC41C, 0xD595, 0xA12A, 0xB0A3, 0x8238, 0x93B1,
    0x6B46, 0x7ACF, 0x4854, 0x59DD, 0x2D62, 0x3CEB, 0x0E70, 0x1FF9,
    0xF78F, 0xE606, 0xD49D, 0xC514, 0xB1AB, 0xA022, 0x92B9, 0x8330,
    0x7BC7, 0x6A4E, 0x58D5, 0x495C, 0x3DE3, 0x2C6A, 0x1EF1, 0x0F78]

/-- The inline step of `CRC16.h`. -/
def crc16Byte (data : Byte) (crc : Word) : Word :=
  crcTableItut.getD ((crc ^^^ data.setWidth 16) &&& 0x00ff#16).toNat 0 ^^^ (crc >>> 8)

def crc16 (start : Word) (data : List Byte) : Word :=
  data.foldl (fun crc b ↦ crc16Byte b crc) start

@[simp] theorem crc16_nil (start : Word) : crc16 start [] = start := rfl

@[simp] theorem crc16_cons (start : Word) (b : Byte) (data : List Byte) :
    crc16 start (b :: data) = crc16 (crc16Byte b start) data := rfl

/-- The feedback word of the reflected polynomial. -/
def feedback : Word := 0x8408#16

theorem feedback_top : feedback.getLsbD (16 - 1) = true := by decide

theorem parity_feedback : parity feedback = 1 := by decide

theorem crcTableItut_eq_map :
    crcTableItut = (List.range 256).map fun i ↦ (step feedback)^[8] (BitVec.ofNat 16 i) := by
  decide +kernel

theorem crcTableItut_low (c : Word) :
    crcTableItut.getD (c &&& 0x00ff#16).toNat 0 =
      (step feedback)^[8] ((c.setWidth 8).setWidth 16) := by
  have hmask : c &&& 0x00ff#16 = (c.setWidth 8).setWidth 16 := by
    apply BitVec.eq_of_getLsbD_eq
    intro i hi
    have hbit : (0x00ff#16).getLsbD i = decide (i < 8) := by
      interval_cases i <;> rfl
    rw [BitVec.getLsbD_and, hbit]
    simp [hi, Bool.and_comm]
  have hlt : (c &&& 0x00ff#16).toNat < 256 := by
    rw [hmask, BitVec.toNat_setWidth, BitVec.toNat_setWidth]
    omega
  rw [crcTableItut_eq_map, List.getD_eq_getElem _ _ (by simpa using hlt), List.getElem_map,
    List.getElem_range, BitVec.ofNat_toNat, BitVec.setWidth_eq, hmask]

/-- One look at the table is eight shifts. -/
theorem crc16Byte_eq_iterate (data : Byte) (crc : Word) :
    crc16Byte data crc = (step feedback)^[8] (crc ^^^ data.setWidth 16) := by
  have hhigh : (crc ^^^ data.setWidth 16) >>> 8 = crc >>> 8 := by
    apply BitVec.eq_of_getLsbD_eq
    intro i _hi
    rw [BitVec.getLsbD_ushiftRight, BitVec.getLsbD_ushiftRight, BitVec.getLsbD_xor,
      BitVec.getLsbD_setWidth, BitVec.getLsbD_of_ge data (8 + i) (by omega)]
    simp
  rw [iterate_eq_low_xor_high feedback 8, ← crcTableItut_low, hhigh]
  rfl

theorem crc16Byte_eq_run (data : Byte) (crc : Word) :
    crc16Byte data crc = run feedback crc (byteBits data) := by
  rw [run_eq_iterate_load feedback crc (byteBits data) (by simp), load_byteBits,
    length_byteBits, crc16Byte_eq_iterate]

theorem crc16_eq_run (start : Word) (data : List Byte) :
    crc16 start data = run feedback start (bits data) := by
  induction data generalizing start with
  | nil => rfl
  | cons b data ih => rw [crc16_cons, ih, crc16Byte_eq_run, bits_cons, run_append]

/-! ## The definition bit by bit -/

/-- The register moves down by one bit, and the bit that falls out is fed back. -/
def shiftOut (crc : Word) : Word :=
  let bit := crc.getLsbD 0
  let crc := crc >>> 1
  if bit then crc ^^^ 0x8408#16 else crc

def bitwiseByte (crc : Word) (b : Byte) : Word := shiftOut^[8] (crc ^^^ b.setWidth 16)

/-- The reflected CCITT checksum as it is defined, without a table. -/
def crcBitwise (start : Word) (data : List Byte) : Word := data.foldl bitwiseByte start

theorem crc16Byte_eq_bitwiseByte (crc : Word) (b : Byte) : crc16Byte b crc = bitwiseByte crc b := by
  have hshift : shiftOut = step feedback := rfl
  rw [bitwiseByte, hshift, crc16Byte_eq_iterate]

/-- The table computes the checksum of its definition, whatever the start value. -/
theorem crc16_eq_crcBitwise (start : Word) (data : List Byte) :
    crc16 start data = crcBitwise start data := by
  induction data generalizing start with
  | nil => rfl
  | cons b data ih =>
      rw [crc16_cons, ih, crc16Byte_eq_bitwiseByte, crcBitwise, crcBitwise, List.foldl_cons]

/-! ## Flipped bits -/

theorem crc16_flipFrom (start : Word) (S : Finset ℕ) (a : ℕ) (data : List Byte) :
    crc16 start (flipFrom S a data) =
      crc16 start data ^^^ run feedback 0#16 (pattern S (8 * a) (8 * data.length)) := by
  rw [crc16_eq_run, crc16_eq_run, bits_flipFrom,
    ← run_zipWith_xor feedback start 0#16 (by simp), BitVec.xor_zero]

theorem crc16_append (start : Word) (xs ys : List Byte) :
    crc16 start (xs ++ ys) = crc16 (crc16 start xs) ys :=
  List.foldl_append

/-- Two strings that differ in a stretch of at most two bytes have different
checksums. -/
theorem crc16_window_injective (start : Word) (before after : List Byte) {xs ys : List Byte}
    (hlen : xs.length = ys.length) (hshort : xs.length ≤ 2)
    (h : crc16 start (before ++ xs ++ after) = crc16 start (before ++ ys ++ after)) : xs = ys := by
  rw [crc16_append, crc16_append, crc16_append start (before ++ ys), crc16_append start before ys,
    crc16_eq_run _ after, crc16_eq_run _ after] at h
  have hwindow := run_injective feedback feedback_top (bits after) h
  rw [crc16_eq_run _ xs, crc16_eq_run _ ys] at hwindow
  apply bits_injective
  refine run_message_injective feedback feedback_top _ ?_ ?_ hwindow
  · rw [length_bits, length_bits, hlen]
  · rw [length_bits]
    omega

/-! ## The order of `x` -/

theorem isPeriodicPt_unit : IsPeriodicPt (step feedback) 32767 (unit : Word) := by
  apply step_injective feedback feedback_top
  have hsquare : square feedback 15 = step feedback unit := by decide +kernel
  have hexp : 2 ^ 15 = 32767 + 1 := by norm_num
  rw [square_eq_iterate, hexp, iterate_succ_apply'] at hsquare
  exact hsquare

/-- Split an exponent at its highest binary digit. -/
theorem iterate_unit_eq_act (k n : ℕ) :
    (step feedback)^[2 ^ k + n] (unit : Word) =
      act feedback (square feedback k) ((step feedback)^[n] unit) := by
  rw [square_eq_iterate, act_iterate_unit]

theorem not_isPeriodicPt_unit_4681 : ¬ IsPeriodicPt (step feedback) 4681 (unit : Word) := by
  have hsplit : 4681 = 2 ^ 12 + (2 ^ 9 + (2 ^ 6 + (2 ^ 3 + 1))) := by norm_num
  rw [IsPeriodicPt, IsFixedPt, hsplit, iterate_unit_eq_act, iterate_unit_eq_act,
    iterate_unit_eq_act, iterate_unit_eq_act]
  decide +kernel

theorem not_isPeriodicPt_unit_1057 : ¬ IsPeriodicPt (step feedback) 1057 (unit : Word) := by
  have hsplit : 1057 = 2 ^ 10 + (2 ^ 5 + 1) := by norm_num
  rw [IsPeriodicPt, IsFixedPt, hsplit, iterate_unit_eq_act, iterate_unit_eq_act]
  decide +kernel

theorem not_isPeriodicPt_unit_217 : ¬ IsPeriodicPt (step feedback) 217 (unit : Word) := by
  have hsplit : 217 = 2 ^ 7 + (2 ^ 6 + (2 ^ 4 + (2 ^ 3 + 1))) := by norm_num
  rw [IsPeriodicPt, IsFixedPt, hsplit, iterate_unit_eq_act, iterate_unit_eq_act,
    iterate_unit_eq_act, iterate_unit_eq_act]
  decide +kernel

/-- The order of `x`, from `32767 = 7 * 31 * 151`. -/
theorem minimalPeriod_unit : minimalPeriod (step feedback) (unit : Word) = 32767 := by
  apply minimalPeriod_eq_of_prime_quotients isPeriodicPt_unit
  intro p hp hdvd
  have hfactor : 32767 = 7 * (31 * 151) := by norm_num
  rw [hfactor] at hdvd
  rcases (Nat.Prime.dvd_mul hp).mp hdvd with h7 | hrest
  · rw [(Nat.prime_dvd_prime_iff_eq hp (by norm_num)).mp h7]
    exact not_isPeriodicPt_unit_4681
  · rcases (Nat.Prime.dvd_mul hp).mp hrest with h31 | h151
    · rw [(Nat.prime_dvd_prime_iff_eq hp (by norm_num)).mp h31]
      exact not_isPeriodicPt_unit_1057
    · rw [(Nat.prime_dvd_prime_iff_eq hp (by norm_num)).mp h151]
      exact not_isPeriodicPt_unit_217

end DeviceAgent
