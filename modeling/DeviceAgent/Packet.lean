import DeviceAgent.Crc16

/-!
# Packets

A `Packet` is a `std::string` with accessors that cast its buffer to packed
structs.  Several of them read at fixed offsets without looking at the length,
so the model keeps, besides the contents, what the storage still holds past
the terminator: `clear` and `erase` move the end of the string and leave those
bytes where they are.
-/

namespace DeviceAgent

/-! ## Symbols and command words -/

def SOH : Byte := 0x01#8
def STX : Byte := 0x02#8
def ETX : Byte := 0x03#8
def EOT : Byte := 0x04#8
def ACK : Byte := 0x06#8
def NAK : Byte := 0x15#8

inductive CommunicationCommand
  | dataRequest
  | mpHealthCheck
  | getCondition
  | setCondition
  | getPreAmp
  | getADCSetting
  | getSpectrumSetting
  | getNetworkSetting
  | setLowHiDoesRateAlarmReset
  | setTransmitUnitHardwareReset
  | setTransmitUnitReset
  | setTransmitUnitMemortClear
  | getTime
  | setTime
  | requestDoseRate
  | confirmDoseRate
  | requestSpectrum
  | confirmSpectrum
  | requestDoseRateAlarm
  | confirmDoseRateAlarm
  | request40KAction
  | confirm40KAction
  | requestGPS
  | confirmGPS
  | requestDataCancel
  | dataTerminate
  | setDataPort
  | setControlPort
  | controlPortHealthCheck
  | cmdEnd
  deriving DecidableEq, Repr

open CommunicationCommand

/-- The two letters of a command as they stand in a frame. -/
def letters (first second : Char) : Byte × Byte :=
  (BitVec.ofNat 8 first.toNat, BitVec.ofNat 8 second.toNat)

/-- The table `cmdWord` below `CMD_END`, in the order of the enumeration. -/
def cmdWord : List (CommunicationCommand × (Byte × Byte)) :=
  [(dataRequest, letters 'r' 'a'), (mpHealthCheck, letters 'w' 'a'),
    (getCondition, letters 'c' 'a'), (setCondition, letters 'c' 'A'),
    (getPreAmp, letters 'c' 'b'), (getADCSetting, letters 'c' 'c'),
    (getSpectrumSetting, letters 'c' 'd'), (getNetworkSetting, letters 'c' 'e'),
    (setLowHiDoesRateAlarmReset, letters 'c' 'F'),
    (setTransmitUnitHardwareReset, letters 'c' 'H'),
    (setTransmitUnitReset, letters 'c' 'I'), (setTransmitUnitMemortClear, letters 'c' 'J'),
    (getTime, letters 'c' 'k'), (setTime, letters 'c' 'K'),
    (requestDoseRate, letters 'h' 'a'), (confirmDoseRate, letters 'h' 'A'),
    (requestSpectrum, letters 'h' 'c'), (confirmSpectrum, letters 'h' 'C'),
    (requestDoseRateAlarm, letters 'h' 'd'), (confirmDoseRateAlarm, letters 'h' 'D'),
    (request40KAction, letters 'h' 'f'), (confirm40KAction, letters 'h' 'F'),
    (requestGPS, letters 'h' 'g'), (confirmGPS, letters 'h' 'G'),
    (requestDataCancel, letters 'h' 'y'), (dataTerminate, letters 'h' 'z'),
    (setDataPort, letters 'p' 'A'), (setControlPort, letters 'p' 'B'),
    (controlPortHealthCheck, letters 'w' 'b')]

/-- The loop over `cmdWord` shared by the two command decoders: the first entry
with this word, or `CMD_END`. -/
def commandOf (word : Byte × Byte) : CommunicationCommand :=
  match cmdWord.find? (fun entry ↦ entry.2 == word) with
  | some entry => entry.1
  | none => cmdEnd

/-- `CmdPacket::IsCommand`. -/
def isCommand (word : Byte × Byte) (n : CommunicationCommand) : Bool :=
  cmdWord.any fun entry ↦ entry.1 == n && entry.2 == word

theorem commandOf_eq_cmdEnd_iff (word : Byte × Byte) :
    commandOf word = cmdEnd ↔ ∀ entry ∈ cmdWord, entry.2 ≠ word := by
  unfold commandOf
  cases hfind : cmdWord.find? (fun entry ↦ entry.2 == word) with
  | none => simpa using hfind
  | some entry =>
      have hmem := List.mem_of_find?_eq_some hfind
      have hword := List.find?_some hfind
      have hnot : ∀ e ∈ cmdWord, e.1 ≠ cmdEnd := by decide
      constructor
      · intro hend
        exact absurd hend (hnot entry hmem)
      · intro hall
        exact absurd (by simpa using hword) (hall entry hmem)

/-! ## The string behind a packet -/

structure Packet where
  strCache : List Byte
  /-- Storage past the terminator. -/
  beyond : List Byte
  deriving DecidableEq, Repr

namespace Packet

/-- The whole storage: contents, terminator, and what lies after it. -/
def storage (p : Packet) : List Byte := p.strCache ++ 0#8 :: p.beyond

/-- A read through `data()` at a fixed offset, wherever the string ends. -/
def byteAt (p : Packet) (i : ℕ) : Byte := p.storage.getD i 0

def getSize (p : Packet) : ℕ := p.strCache.length

def clear (p : Packet) : Packet := ⟨[], p.storage.tail⟩

def append (p : Packet) (bytes : List Byte) : Packet :=
  ⟨p.strCache ++ bytes, p.beyond.drop bytes.length⟩

/-- `erase(0, pos)`: the contents move to the front of the same storage. -/
def erase (p : Packet) (pos : ℕ) : Packet :=
  ⟨p.strCache.drop pos, p.storage.drop (p.strCache.length - pos + 1)⟩

def setPacket (p : Packet) (bytes : List Byte) : Packet := p.clear.append bytes

@[simp] theorem clear_strCache (p : Packet) : p.clear.strCache = [] := rfl

@[simp] theorem append_strCache (p : Packet) (bytes : List Byte) :
    (p.append bytes).strCache = p.strCache ++ bytes := rfl

@[simp] theorem erase_strCache (p : Packet) (pos : ℕ) :
    (p.erase pos).strCache = p.strCache.drop pos := rfl

theorem byteAt_of_lt (p : Packet) {i : ℕ} (hi : i < p.strCache.length) :
    p.byteAt i = p.strCache.getD i 0 := by
  rw [byteAt, storage, List.getD_append _ _ _ _ hi]

theorem byteAt_congr {p q : Packet} (h : p.strCache = q.strCache) {i : ℕ}
    (hi : i < q.strCache.length) : p.byteAt i = q.byteAt i := by
  rw [byteAt_of_lt q hi, byteAt_of_lt p (h ▸ hi), h]

theorem byteAt_zero_of_empty {p : Packet} (hp : p.strCache = []) : p.byteAt 0 = 0#8 := by
  simp [byteAt, storage, hp]

theorem byteAt_clear (p : Packet) {i : ℕ} (hi : 0 < i) : p.clear.byteAt i = p.byteAt i := by
  obtain ⟨j, rfl⟩ : ∃ j, i = j + 1 := ⟨i - 1, by omega⟩
  simp only [byteAt, storage, clear, List.nil_append, List.getD_cons_succ]
  cases p.strCache <;> simp

end Packet

/-! ## Building and checking frames -/

def joinCRC (high low : Byte) : Word :=
  (((high.signExtend 32 <<< 8) &&& 0xff00#32) ||| (0x00ff#32 &&& low.signExtend 32)).setWidth 16

def crcHigh (crc : Word) : Byte := ((crc >>> 8) &&& 0x00ff#16).setWidth 8

def crcLow (crc : Word) : Byte := (crc &&& 0x00ff#16).setWidth 8

def Packet.buildPacket (p : Packet) (content : List Byte) (machine : Byte) : Packet :=
  let p := p.clear.append [SOH]
  let p := p.append [machine]
  let p := p.append [STX]
  let p := p.append content
  let p := p.append [ETX]
  let crc := crc16 (~~~0#16) ((p.strCache.drop 3).take (content.length + 1))
  let p := p.append [crcHigh crc]
  let p := p.append [crcLow crc]
  p.append [EOT]

def isFrameCRCOK (strCache : List Byte) : Bool :=
  if strCache.length < 9 then false
  else
    let tail := strCache.length - 1
    if strCache.getD tail 0 == EOT && strCache.getD (tail - 3) 0 == ETX then
      let crc := crc16 (~~~0#16) ((strCache.drop 3).take (strCache.length - 6))
      let CRC := joinCRC (strCache.getD (tail - 2) 0) (strCache.getD (tail - 1) 0)
      crc == CRC
    else false

/-- The sign extension of a `char` does not survive the masks. -/
theorem joinCRC_eq_append (high low : Byte) : joinCRC high low = high ++ low := by
  apply BitVec.eq_of_getLsbD_eq
  intro i hi
  have h1 : (0xff00#32).getLsbD i = decide (8 ≤ i) := by
    interval_cases i <;> rfl
  have h2 : (0x00ff#32).getLsbD i = decide (i < 8) := by
    interval_cases i <;> rfl
  have hi32 : i < 32 := by omega
  rw [joinCRC, BitVec.getLsbD_setWidth, BitVec.getLsbD_or, BitVec.getLsbD_and, BitVec.getLsbD_and,
    h1, h2, BitVec.getLsbD_shiftLeft, BitVec.getLsbD_append, BitVec.getLsbD_signExtend,
    BitVec.getLsbD_signExtend]
  by_cases hi8 : i < 8
  · have hge : ¬ 8 ≤ i := by omega
    simp [hi8, hge, hi32, hi]
  · have hge : 8 ≤ i := by omega
    have hsub : i - 8 < 8 := by omega
    have hsub32 : i - 8 < 32 := by omega
    simp [hi8, hge, hi32, hi, hsub, hsub32]

theorem joinCRC_split (crc : Word) : joinCRC (crcHigh crc) (crcLow crc) = crc := by
  have hmask : ∀ k, k < 8 → (0x00ff#16).getLsbD k = true := by decide
  have hlow : ∀ k, k < 8 → (crcLow crc).getLsbD k = crc.getLsbD k := by
    intro k hk
    rw [crcLow, BitVec.getLsbD_setWidth, BitVec.getLsbD_and, hmask k hk]
    simp [hk]
  have hhigh : ∀ k, k < 8 → (crcHigh crc).getLsbD k = crc.getLsbD (8 + k) := by
    intro k hk
    rw [crcHigh, BitVec.getLsbD_setWidth, BitVec.getLsbD_and, hmask k hk,
      BitVec.getLsbD_ushiftRight]
    simp [hk]
  rw [joinCRC_eq_append]
  apply BitVec.eq_of_getLsbD_eq
  intro i hi
  rw [BitVec.getLsbD_append]
  by_cases hi8 : i < 8
  · simp only [hi8, if_true]
    exact hlow i hi8
  · have hadd : 8 + (i - 8) = i := by omega
    simp only [hi8, if_false]
    rw [hhigh (i - 8) (by omega), hadd]

/-- The check of a frame, with its parts spelt out: the three bytes of the
head, the checked bytes, and the trailer. -/
theorem isFrameCRCOK_parts (h₀ h₁ h₂ high low last : Byte) (body : List Byte) :
    isFrameCRCOK (h₀ :: h₁ :: h₂ :: (body ++ [high, low, last])) = true ↔
      3 ≤ body.length ∧ last = EOT ∧ body.getLast? = some ETX ∧
        crc16 (~~~0#16) body = high ++ low := by
  have hlen : (h₀ :: h₁ :: h₂ :: (body ++ [high, low, last])).length = body.length + 6 := by
    simp
  unfold isFrameCRCOK
  rw [hlen]
  by_cases hshort : body.length + 6 < 9
  · have hnot : ¬ 3 ≤ body.length := by omega
    simp [hshort, hnot]
  · have hlong : 3 ≤ body.length := by omega
    obtain ⟨init, etx, rfl⟩ : ∃ init etx, body = init ++ [etx] := by
      refine ⟨body.dropLast, body.getLast (by rintro rfl; simp at hlong), ?_⟩
      exact (List.dropLast_append_getLast _).symm
    have hinit : (init ++ [etx]).length = init.length + 1 := by simp
    have hget : ∀ k b, (init ++ [etx] ++ [high, low, last])[k]? = some b →
        (h₀ :: h₁ :: h₂ :: (init ++ [etx] ++ [high, low, last])).getD (k + 3) 0 = b := by
      intro k b hk
      simp only [List.getD_eq_getElem?_getD, List.getElem?_cons_succ, hk, Option.getD_some]
    have hlast := hget (init.length + 3) last (by simp)
    have hetx := hget init.length etx (by simp)
    have hhigh := hget (init.length + 1) high (by simp)
    have hlow := hget (init.length + 2) low (by simp)
    have hbody : ((h₀ :: h₁ :: h₂ :: (init ++ [etx] ++ [high, low, last])).drop 3).take
        (init.length + 1 + 6 - 6) = init ++ [etx] := by
      rw [Nat.add_sub_cancel, ← hinit]
      simp only [List.drop_succ_cons, List.drop_zero]
      exact List.take_left
    simp only [hinit] at hshort hlong ⊢
    have e1 : init.length + 1 + 6 - 1 = init.length + 3 + 3 := by omega
    have e2 : init.length + 3 + 3 - 3 = init.length + 3 := by omega
    have e3 : init.length + 3 + 3 - 2 = init.length + 1 + 3 := by omega
    have e4 : init.length + 3 + 3 - 1 = init.length + 2 + 3 := by omega
    simp only [hshort, if_false, hbody, e1, e2, e3, e4, hlast, hetx, hhigh, hlow,
      joinCRC_eq_append, List.getLast?_append, List.getLast?_singleton, Option.some_or,
      Option.some.injEq]
    by_cases hl : last = EOT <;> by_cases he : etx = ETX <;> (simp [hl, he]; try omega)

theorem buildPacket_strCache (p : Packet) (content : List Byte) (machine : Byte) :
    (p.buildPacket content machine).strCache =
      SOH :: machine :: STX :: (content ++ [ETX] ++
        [crcHigh (crc16 (~~~0#16) (content ++ [ETX])),
          crcLow (crc16 (~~~0#16) (content ++ [ETX])), EOT]) := by
  have hbody : (content ++ [ETX]).take (content.length + 1) = content ++ [ETX] := by
    apply List.take_of_length_le
    simp
  simp [Packet.buildPacket, hbody]

theorem length_ge_of_isFrameCRCOK {strCache : List Byte} (h : isFrameCRCOK strCache = true) :
    9 ≤ strCache.length := by
  by_contra hlt
  simp [isFrameCRCOK, Nat.lt_of_not_le hlt] at h

theorem getLast?_of_isFrameCRCOK {strCache : List Byte} (h : isFrameCRCOK strCache = true) :
    strCache.getLast? = some EOT := by
  have hlen := length_ge_of_isFrameCRCOK h
  have hnot : ¬ strCache.length < 9 := by omega
  have htail : strCache.getD (strCache.length - 1) 0 = EOT := by
    by_contra hne
    simp only [isFrameCRCOK, hnot, if_false, beq_eq_false_iff_ne.mpr hne, Bool.false_and,
      Bool.false_eq_true] at h
  rw [List.getLast?_eq_getElem?, ← htail, List.getD_eq_getElem?_getD,
    List.getElem?_eq_getElem (by omega), Option.getD_some]

theorem ne_nil_of_isFrameCRCOK {strCache : List Byte} (h : isFrameCRCOK strCache = true) :
    strCache ≠ [] := by
  rintro rfl
  simp [isFrameCRCOK] at h

/-! ## Accessors -/

namespace Packet

/-- Two bytes of a packed struct in network order. -/
def wordAt (p : Packet) (i : ℕ) : Word := p.byteAt i ++ p.byteAt (i + 1)

/-- The bytes at the command field of every frame struct. -/
def cmdField (p : Packet) : Byte × Byte := (p.byteAt 3, p.byteAt 4)

def getDataNo (p : Packet) : Word :=
  if p.getSize < 1 then 0 else p.wordAt 7

def isAck (p : Packet) : Bool := p.byteAt 0 == ACK

def isAckNo (p : Packet) (no : Word) : Bool :=
  p.byteAt 0 == ACK && p.wordAt 4 == no

def isValidStatus (p : Packet) : Bool :=
  decide (0 < p.getSize) && isCommand p.cmdField mpHealthCheck

def getStatus (p : Packet) : BitVec 32 :=
  if 0 < p.getSize then p.wordAt 15 ++ p.wordAt 17 else 0

def frameCommandType (p : Packet) : CommunicationCommand :=
  if 4 < p.getSize then commandOf p.cmdField else cmdEnd

/-- `CmdPacket::CommandType`, which has no length check. -/
def commandType (p : Packet) : CommunicationCommand := commandOf p.cmdField

theorem getDataNo_congr {p q : Packet} (h : p.strCache = q.strCache)
    (hlong : 9 ≤ q.strCache.length) : p.getDataNo = q.getDataNo := by
  unfold getDataNo getSize wordAt
  rw [h, byteAt_congr h (by omega : 7 < _), byteAt_congr h (by omega : 7 + 1 < _)]

theorem frameCommandType_congr {p q : Packet} (h : p.strCache = q.strCache) :
    p.frameCommandType = q.frameCommandType := by
  unfold frameCommandType getSize cmdField
  rw [h]
  split
  · rename_i hlong
    rw [byteAt_congr h (by omega : 3 < _), byteAt_congr h hlong]
  · rfl

theorem isAck_of_isAckNo {p : Packet} {no : Word} (h : p.isAckNo no = true) :
    p.isAck = true := by
  simp only [isAckNo, Bool.and_eq_true] at h
  exact h.1

theorem isAck_of_empty {p : Packet} (hp : p.strCache = []) : p.isAck = false := by
  rw [isAck, byteAt_zero_of_empty hp]
  decide

end Packet

end DeviceAgent
