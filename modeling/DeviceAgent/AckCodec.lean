import DeviceAgent.Acknowledgement

/-!
# Building and reading acknowledgements

`Ack` leaves the number out when it is zero, so an acknowledgement has four or
six bytes.  `GetAckNo` knows about the short form, `IsAckNo` does not: it
compares whatever the storage holds behind the fourth byte.
-/

namespace DeviceAgent

open CommunicationCommand ReadResult

/-- `cmdWord[eCmd]` as two bytes.  The entry at `CMD_END` is an empty literal,
so its second byte is whatever lies behind the terminator. -/
def wordOf (behind : Byte) (eCmd : CommunicationCommand) : Byte × Byte :=
  match cmdWord.find? (fun entry ↦ entry.1 == eCmd) with
  | some entry => entry.2
  | none => (0x00#8, behind)

namespace Packet

def ack (p : Packet) (behind : Byte) (bAck : Bool) (machine : Byte) (eCmd : CommunicationCommand)
    (nNum : Word) : Packet :=
  let p := p.clear.append [if bAck then ACK else NAK]
  let p := p.append [machine]
  let p := p.append [(wordOf behind eCmd).1, (wordOf behind eCmd).2]
  if nNum ≠ 0#16 then
    let p := p.append [(((nNum.signExtend 32).sshiftRight 8) &&& 0x0ff#32).setWidth 8]
    p.append [(nNum.signExtend 32 &&& 0x0ff#32).setWidth 8]
  else p

def isValidAck (p : Packet) : Bool :=
  !p.strCache.isEmpty && (p.byteAt 0 == ACK || p.byteAt 0 == NAK)

def getAckNo (p : Packet) : Word := if p.getSize = 4 then 0 else p.wordAt 4

/-! ## The offsets an accessor reads -/

def isValidAckReads (p : Packet) : List ℕ := if p.strCache.isEmpty then [] else [0]

def isAckReads : List ℕ := [0]

def getAckNoReads (p : Packet) : List ℕ := if p.getSize = 4 then [] else [4, 5]

/-- The number is compared only behind the symbol `ACK`. -/
def isAckNoReads (p : Packet) : List ℕ := if p.byteAt 0 == ACK then [0, 4, 5] else [0]

def ackReads (p : Packet) : List ℕ :=
  p.isValidAckReads ++ isAckReads ++ p.getAckNoReads ++ p.isAckNoReads

theorem signExtend_high (n : Word) :
    (((n.signExtend 32).sshiftRight 8) &&& 0x0ff#32).setWidth 8 = n.extractLsb' 8 8 := by
  apply BitVec.eq_of_getLsbD_eq
  intro i hi
  have hmask : (0x0ff#32).getLsbD i = true := by
    interval_cases i <;> rfl
  have hi32 : i < 32 := by omega
  have hsum : 8 + i < 16 := by omega
  have hsum32 : 8 + i < 32 := by omega
  rw [BitVec.getLsbD_setWidth, BitVec.getLsbD_and, hmask, BitVec.getLsbD_sshiftRight,
    BitVec.getLsbD_signExtend, BitVec.getLsbD_extractLsb']
  simp [hi, hsum, hsum32]
  omega

theorem signExtend_low (n : Word) :
    (n.signExtend 32 &&& 0x0ff#32).setWidth 8 = n.extractLsb' 0 8 := by
  apply BitVec.eq_of_getLsbD_eq
  intro i hi
  have hmask : (0x0ff#32).getLsbD i = true := by
    interval_cases i <;> rfl
  have hi32 : i < 32 := by omega
  have hi16 : i < 16 := by omega
  rw [BitVec.getLsbD_setWidth, BitVec.getLsbD_and, hmask, BitVec.getLsbD_signExtend,
    BitVec.getLsbD_extractLsb']
  simp [hi, hi16, hi32]

/-- The long form is the frame `AcKFrame`. -/
theorem ack_strCache (p : Packet) (behind : Byte) (bAck : Bool) (machine : Byte)
    (eCmd : CommunicationCommand) {nNum : Word} (hnum : nNum ≠ 0#16) :
    (p.ack behind bAck machine eCmd nNum).strCache =
      Answer.bytes ⟨bAck, machine, wordOf behind eCmd, nNum⟩ := by
  simp only [ack, ne_eq, hnum, not_false_eq_true, if_true, append_strCache, clear_strCache,
    signExtend_high, signExtend_low]
  rfl

theorem ack_strCache_zero (p : Packet) (behind : Byte) (bAck : Bool) (machine : Byte)
    (eCmd : CommunicationCommand) :
    (p.ack behind bAck machine eCmd 0#16).strCache =
      [if bAck then ACK else NAK, machine, (wordOf behind eCmd).1, (wordOf behind eCmd).2] := by
  simp [ack]

theorem isSymbol_ack (bAck : Bool) : isSymbol (if bAck then ACK else NAK) = true := by
  cases bAck <;> rfl

theorem symbol_eq_ACK_iff (bAck : Bool) : (if bAck then ACK else NAK) = ACK ↔ bAck = true := by
  cases bAck <;> decide

/-- What follows the noise is stored as it comes. -/
theorem receiveAckFrom_noise (p : Packet) {noise : List Byte}
    (hnoise : ∀ b ∈ noise, b ≠ ACK ∧ b ≠ NAK) (bAck : Bool) (more : List Byte)
    (tail : List ReadResult) :
    (p.receiveAckFrom ((noise ++ (if bAck then ACK else NAK) :: more).map byte ++
        zero :: tail)).packet = p.clear.append ((if bAck then ACK else NAK) :: more) := by
  have hdrop : (noise ++ (if bAck then ACK else NAK) :: more).dropWhile (fun b ↦ !isSymbol b) =
      (if bAck then ACK else NAK) :: more := by
    rw [List.dropWhile_append_of_pos]
    · rw [List.dropWhile_cons_of_neg (by simp [isSymbol_ack])]
    · intro b hb
      simpa [isSymbol] using hnoise b hb
  rw [receiveAckFrom_bytes p _ (by simp), hdrop]

/-- The received packet `r` is the acknowledgement with these bytes, every
accessor gives back what was put in, and none of them looks outside. -/
structure ReadsBack (r : Packet) (bytes : List Byte) (bAck : Bool) (nNum : Word) : Prop where
  bytes : r.strCache = bytes
  valid : r.isValidAck = true
  positive : r.isAck = bAck
  number : r.getAckNo = nNum
  numbered : ∀ m, r.isAckNo m = true ↔ bAck = true ∧ m = nNum
  inside : ∀ i ∈ r.ackReads, i < r.getSize

theorem readsBack_long (p : Packet) (bAck : Bool) (machine : Byte) (word : Byte × Byte)
    (nNum : Word) :
    ReadsBack (p.clear.append (Answer.bytes ⟨bAck, machine, word, nNum⟩))
      (Answer.bytes ⟨bAck, machine, word, nNum⟩) bAck nNum := by
  have hbyte : ∀ i, i < 6 → (p.clear.append (Answer.bytes ⟨bAck, machine, word, nNum⟩)).byteAt i =
      (Answer.bytes ⟨bAck, machine, word, nNum⟩).getD i 0 :=
    fun i hi ↦ byteAt_append_of_lt p.clear rfl hi
  have hfirst : (p.clear.append (Answer.bytes ⟨bAck, machine, word, nNum⟩)).byteAt 0 =
      if bAck then ACK else NAK := hbyte 0 (by omega)
  have hword : (p.clear.append (Answer.bytes ⟨bAck, machine, word, nNum⟩)).wordAt 4 = nNum := by
    rw [wordAt, hbyte 4 (by omega), hbyte (4 + 1) (by omega)]
    exact high_append_low nNum
  have hsize : (p.clear.append (Answer.bytes ⟨bAck, machine, word, nNum⟩)).getSize = 6 := rfl
  refine ⟨rfl, ?_, ?_, ?_, fun m ↦ ?_, fun i hi ↦ ?_⟩
  · rw [isValidAck, hfirst]
    cases bAck <;> rfl
  · rw [isAck, hfirst]
    cases bAck <;> rfl
  · rw [getAckNo, hsize, if_neg (by omega), hword]
  · rw [isAckNo, hfirst, hword, Bool.and_eq_true, beq_iff_eq, beq_iff_eq, symbol_eq_ACK_iff,
      eq_comm (a := nNum)]
  · rw [hsize]
    simp only [ackReads, isValidAckReads, isAckReads, getAckNoReads, isAckNoReads, hsize,
      List.mem_append] at hi
    grind

theorem readsBack_short_iff (p : Packet) (bAck : Bool) (machine : Byte) (word : Byte × Byte) :
    ReadsBack (p.clear.append [if bAck then ACK else NAK, machine, word.1, word.2])
      [if bAck then ACK else NAK, machine, word.1, word.2] bAck 0#16 ↔ bAck = false := by
  have hfirst : (p.clear.append [if bAck then ACK else NAK, machine, word.1, word.2]).byteAt 0 =
      if bAck then ACK else NAK := byteAt_append_of_lt p.clear rfl (by simp)
  have hsize : (p.clear.append [if bAck then ACK else NAK, machine, word.1, word.2]).getSize = 4 :=
    rfl
  constructor
  · intro h
    by_contra hack
    have hpos : bAck = true := by simpa using hack
    -- behind `ACK` the number is looked for at offsets 4 and 5 of a packet of four bytes
    have hread : 4 ∈ isAckNoReads
        (p.clear.append [if bAck then ACK else NAK, machine, word.1, word.2]) := by
      rw [isAckNoReads, hfirst, hpos]
      decide
    have hout := h.inside 4 (List.mem_append_right _ hread)
    rw [hsize] at hout
    exact absurd hout (by omega)
  · rintro rfl
    refine ⟨rfl, ?_, ?_, ?_, fun m ↦ ?_, fun i hi ↦ ?_⟩
    · rw [isValidAck, hfirst]
      rfl
    · rw [isAck, hfirst]
      rfl
    · rw [getAckNo, hsize, if_pos rfl]
      rfl
    · rw [isAckNo, hfirst]
      simp [ACK, NAK]
    · have hreads : isAckNoReads (p.clear.append [NAK, machine, word.1, word.2]) = [0] := by
        rw [isAckNoReads, byteAt_append_of_lt p.clear rfl (by simp)]
        rfl
      have hzero : i = 0 := by
        simpa [ackReads, isValidAckReads, isAckReads, getAckNoReads, getSize, hreads] using hi
      rw [hsize, hzero]
      omega

/-- The round trip of an acknowledgement succeeds exactly when it is negative or
carries a number. -/
theorem ack_readsBack_iff (p q : Packet) (behind : Byte) (noise : List Byte)
    (tail : List ReadResult) (bAck : Bool) (machine : Byte) (eCmd : CommunicationCommand)
    (nNum : Word) (hnoise : ∀ b ∈ noise, b ≠ ACK ∧ b ≠ NAK) :
    ReadsBack (p.receiveAckFrom ((noise ++ (q.ack behind bAck machine eCmd nNum).strCache).map byte
        ++ zero :: tail)).packet (q.ack behind bAck machine eCmd nNum).strCache bAck nNum ↔
      bAck = false ∨ nNum ≠ 0#16 := by
  by_cases hnum : nNum = 0#16
  · subst hnum
    rw [ack_strCache_zero, receiveAckFrom_noise p hnoise, readsBack_short_iff]
    simp
  · rw [ack_strCache q behind bAck machine eCmd hnum]
    have hpacket := receiveAckFrom_noise p hnoise bAck
      (Answer.bytes ⟨bAck, machine, wordOf behind eCmd, nNum⟩).tail tail
    have hbytes : (if bAck then ACK else NAK) ::
        (Answer.bytes ⟨bAck, machine, wordOf behind eCmd, nNum⟩).tail =
        Answer.bytes ⟨bAck, machine, wordOf behind eCmd, nNum⟩ := rfl
    rw [hbytes] at hpacket
    rw [hpacket]
    exact ⟨fun _ ↦ Or.inr hnum, fun _ ↦ readsBack_long p bAck machine _ nNum⟩

/-- The acknowledgement of number 7 after a byte of noise. -/
theorem ack_readsBack_seven :
    ReadsBack ((Packet.mk [] []).receiveAckFrom (([0x00#8] ++ ((Packet.mk [] []).ack 0x00#8 true
        0x01#8 mpHealthCheck 7#16).strCache).map byte ++ [zero])).packet
      ((Packet.mk [] []).ack 0x00#8 true 0x01#8 mpHealthCheck 7#16).strCache true 7#16 :=
  (ack_readsBack_iff ⟨[], []⟩ ⟨[], []⟩ 0x00#8 [0x00#8] [] true 0x01#8 mpHealthCheck 7#16
    (by decide)).mpr (Or.inr (by decide))

/-- The acknowledgement of number 0, read into the packet that held the one of
number 7 before. -/
def zeroAfterSeven : Packet :=
  (((Packet.mk [] []).ack 0x00#8 true 0x01#8 mpHealthCheck 7#16).receiveAckFrom
    (((Packet.mk [] []).ack 0x00#8 true 0x01#8 mpHealthCheck 0#16).strCache.map byte ++
      [zero])).packet

/-- It is taken for number 7 and not for number 0. -/
theorem ack_zero_taken_for_seven :
    zeroAfterSeven.strCache =
        ((Packet.mk [] []).ack 0x00#8 true 0x01#8 mpHealthCheck 0#16).strCache ∧
      zeroAfterSeven.isAckNo 0#16 = false ∧ zeroAfterSeven.isAckNo 7#16 = true ∧
      ¬ ReadsBack zeroAfterSeven
        ((Packet.mk [] []).ack 0x00#8 true 0x01#8 mpHealthCheck 0#16).strCache true 0#16 := by
  refine ⟨by decide +kernel, by decide +kernel, by decide +kernel, fun h ↦ ?_⟩
  have hzero := (h.numbered 0#16).mpr ⟨rfl, rfl⟩
  exact absurd hzero (by decide +kernel)

end Packet

end DeviceAgent
