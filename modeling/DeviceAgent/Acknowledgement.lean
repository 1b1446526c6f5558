import DeviceAgent.Receiver

/-!
# Acknowledgements on the wire

An answer of the server is six bytes: `ACK` or `NAK`, the machine, the command
word and the data number.  `ReceiveAckFrom` stores everything it reads up to
the end of data, so several answers may end up in one packet; the accessors
look at the first.
-/

namespace DeviceAgent

open ReadResult

structure Answer where
  positive : Bool
  machine : Byte
  cmd : Byte × Byte
  no : Word
  deriving DecidableEq, Repr

/-- The layout of `AcKFrame`, with the number in network order. -/
def Answer.bytes (a : Answer) : List Byte :=
  [if a.positive then ACK else NAK, a.machine, a.cmd.1, a.cmd.2,
    a.no.extractLsb' 8 8, a.no.extractLsb' 0 8]

theorem Answer.length_bytes (a : Answer) : a.bytes.length = 6 := rfl

theorem high_append_low (no : Word) : no.extractLsb' 8 8 ++ no.extractLsb' 0 8 = no := by
  apply BitVec.eq_of_getLsbD_eq
  intro i hi
  simp only [BitVec.getLsbD_append, BitVec.getLsbD_extractLsb']
  interval_cases i <;> simp

namespace Packet

theorem append_nil (p : Packet) : p.append [] = p := by
  simp [append]

theorem append_append (p : Packet) (xs ys : List Byte) :
    (p.append xs).append ys = p.append (xs ++ ys) := by
  simp [append]

theorem byteAt_append_of_lt (p : Packet) (hp : p.strCache = []) {bytes : List Byte} {i : ℕ}
    (hi : i < bytes.length) : (p.append bytes).byteAt i = bytes.getD i 0 := by
  have hlen : i < (p.append bytes).strCache.length := by
    simpa [hp] using hi
  rw [byteAt_of_lt _ hlen, append_strCache, hp, List.nil_append]

/-- The exception, if any, of the read that ends a call. -/
def endOf : ReadResult → Option ChannelException
  | fail e => some e
  | _ => none

def isSymbol (b : Byte) : Bool := b == ACK || b == NAK

theorem collectAck_bytes (p : Packet) (buff : Byte) (bs : List Byte) {r : ReadResult}
    (hr : ∀ b, r ≠ byte b) (tail : List ReadResult) :
    collectAck p buff (bs.map byte ++ r :: tail) = ⟨p.append (buff :: bs), tail, endOf r⟩ := by
  induction bs generalizing p buff with
  | nil =>
      cases r with
      | byte b => exact absurd rfl (hr b)
      | zero => rfl
      | fail e => rfl
  | cons b bs ih =>
      change collectAck (p.append [buff]) b (bs.map byte ++ r :: tail) = _
      rw [ih, append_append]
      rfl

theorem scanAck_bytes (p : Packet) (bs : List Byte) {r : ReadResult}
    (hr : ∀ b, r ≠ byte b) (tail : List ReadResult) :
    scanAck p (bs.map byte ++ r :: tail) =
      ⟨p.append (bs.dropWhile fun b ↦ !isSymbol b), tail, endOf r⟩ := by
  induction bs with
  | nil =>
      cases r with
      | byte b => exact absurd rfl (hr b)
      | zero => simp [scanAck, endOf, append_nil]
      | fail e => simp [scanAck, endOf, append_nil]
  | cons b bs ih =>
      by_cases hb : b = ACK ∨ b = NAK
      · have hsym : isSymbol b = true := by simpa [isSymbol] using hb
        rw [List.dropWhile_cons_of_neg (by simp [hsym])]
        simp only [List.map_cons, List.cons_append, scanAck, hb, if_true]
        exact collectAck_bytes p b bs hr tail
      · have hsym : isSymbol b = false := by simpa [isSymbol] using hb
        rw [List.dropWhile_cons_of_pos (by simp [hsym])]
        simp only [List.map_cons, List.cons_append, scanAck, hb, if_false]
        exact ih

theorem receiveAckFrom_bytes (p : Packet) (bs : List Byte) {r : ReadResult}
    (hr : ∀ b, r ≠ byte b) (tail : List ReadResult) :
    p.receiveAckFrom (bs.map byte ++ r :: tail) =
      ⟨p.clear.append (bs.dropWhile fun b ↦ !isSymbol b), tail, endOf r⟩ :=
  scanAck_bytes p.clear bs hr tail

/-! ## Whole answers -/

theorem dropWhile_answers (answers : List Answer) :
    (answers.flatMap Answer.bytes).dropWhile (fun b ↦ !isSymbol b) =
      answers.flatMap Answer.bytes := by
  cases answers with
  | nil => rfl
  | cons a answers =>
      rw [List.flatMap_cons, Answer.bytes, List.cons_append]
      apply List.dropWhile_cons_of_neg
      cases a.positive <;> decide

/-- A packet read from whole answers acknowledges a number only if the first of
them is an acknowledgement with that number. -/
theorem first_of_isAckNo {p : Packet} {answers : List Answer} {no : Word}
    (h : (p.clear.append (answers.flatMap Answer.bytes)).isAckNo no = true) :
    ∃ a rest, answers = a :: rest ∧ a.positive = true ∧ a.no = no := by
  cases answers with
  | nil =>
      have hack := isAck_of_isAckNo h
      rw [isAck_of_empty (by simp)] at hack
      cases hack
  | cons a rest =>
      have hbyte : ∀ i, i < 6 →
          (p.clear.append ((a :: rest).flatMap Answer.bytes)).byteAt i = a.bytes.getD i 0 := by
        intro i hi
        rw [List.flatMap_cons, byteAt_append_of_lt p.clear rfl (by
          rw [List.length_append, a.length_bytes]
          omega), List.getD_append _ _ _ _ (by rw [a.length_bytes]; exact hi)]
      simp only [isAckNo, wordAt, hbyte 0 (by omega), hbyte 4 (by omega), hbyte 5 (by omega),
        Nat.reduceAdd, Bool.and_eq_true, beq_iff_eq] at h
      obtain ⟨hsym, hno⟩ := h
      refine ⟨a, rest, rfl, ?_, ?_⟩
      · by_contra hneg
        have hnak : (if a.positive then ACK else NAK) = ACK := hsym
        rw [if_neg hneg] at hnak
        exact absurd hnak (by decide)
      · rw [← hno, ← high_append_low a.no]
        rfl

end Packet

end DeviceAgent
