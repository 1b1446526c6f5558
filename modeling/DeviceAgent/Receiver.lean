import DeviceAgent.Packet

/-!
# Receiving acknowledgements and frames

A channel is read one byte at a time.  Its behaviour during a call is the list
of results of the successive `Read`s: a byte, zero (a timeout or an end of
data), or an exception.  The loops of `Packet.cpp` are recursions over that
list; an exhausted list stands for a channel that stays silent.
-/

namespace DeviceAgent

structure ChannelException where
  err : ℤ
  bUnConnected : Bool
  deriving DecidableEq, Repr

inductive ReadResult
  | byte (b : Byte)
  | zero
  | fail (e : ChannelException)
  deriving DecidableEq, Repr

open ReadResult

/-- How a receiving call ends: the packet as it was left, the reads not made,
and the exception that ended the call, if any. -/
structure Received where
  packet : Packet
  rest : List ReadResult
  thrown : Option ChannelException
  deriving DecidableEq, Repr

namespace Packet

/-! ## Acknowledgements -/

/-- The inner loop of `ReceiveAckFrom`; `buff` has been read and not stored. -/
def collectAck (p : Packet) (buff : Byte) : List ReadResult → Received
  | [] => ⟨p.append [buff], [], none⟩
  | zero :: rest => ⟨p.append [buff], rest, none⟩
  | fail e :: rest => ⟨p.append [buff], rest, some e⟩
  | byte b :: rest => collectAck (p.append [buff]) b rest

/-- The reads that look for an acknowledgement symbol. -/
def scanAck (p : Packet) : List ReadResult → Received
  | [] => ⟨p, [], none⟩
  | zero :: rest => ⟨p, rest, none⟩
  | fail e :: rest => ⟨p, rest, some e⟩
  | byte b :: rest => if b = ACK ∨ b = NAK then collectAck p b rest else scanAck p rest

def receiveAckFrom (p : Packet) (input : List ReadResult) : Received :=
  scanAck p.clear input

/-! ## Frames -/

def slipToNextStartToken (p : Packet) : Packet :=
  match (p.strCache.drop 1).findIdx? (· == SOH) with
  | some k => p.erase (k + 1)
  | none => p.clear

/-- The verdict of `isValidFrame`, with the packet as the call leaves it: the
`continue` of its one-shot loop only skips to the loop's end. -/
def isValidFrame (p : Packet) : Bool × Packet :=
  if isFrameCRCOK p.strCache then (true, p)
  else if 4056 < p.getSize then (false, p.slipToNextStartToken)
  else (false, p)

def resyncLoop : ℕ → Packet → Packet
  | 0, p => p
  | n + 1, p =>
      if p.strCache = [] then p
      else
        let p := p.slipToNextStartToken
        if isFrameCRCOK p.strCache then p else resyncLoop n p

/-- The loop after the end of data.  Each slip drops at least one byte. -/
def resync (p : Packet) : Packet := resyncLoop p.getSize p

/-- One pass through the body of the inner loop of `ReceiveFrameFrom`: store the
byte, and check the buffer when the byte may end a frame. -/
def storeByte (p : Packet) (buff : Byte) : Bool × Packet :=
  if buff = EOT then (p.append [buff]).isValidFrame else (false, p.append [buff])

/-- The inner loop; `buff` has been read and not stored.  The outer loop repeats
on the same count of bytes, so it is left together with the inner one. -/
def collectFrame (p : Packet) (buff : Byte) (input : List ReadResult) : Received :=
  let stored := p.storeByte buff
  if stored.1 then ⟨stored.2, input, none⟩
  else
    match input with
    | [] => ⟨stored.2.resync, [], none⟩
    | zero :: rest => ⟨stored.2.resync, rest, none⟩
    | fail e :: rest => ⟨stored.2, rest, some e⟩
    | byte b :: rest => collectFrame stored.2 b rest

def scanFrame (p : Packet) : List ReadResult → Received
  | [] => ⟨p, [], none⟩
  | zero :: rest => ⟨p, rest, none⟩
  | fail e :: rest => ⟨p, rest, some e⟩
  | byte b :: rest => if b = SOH then collectFrame p b rest else scanFrame p rest

def receiveFrameFrom (p : Packet) (input : List ReadResult) : Received :=
  scanFrame p.clear input

/-! ## Slipping -/

theorem slip_strCache (p : Packet) :
    p.slipToNextStartToken.strCache = (p.strCache.drop 1).dropWhile (· != SOH) := by
  have hdrop : ∀ s : List Byte, s.dropWhile (· != SOH) =
      match s.findIdx? (· == SOH) with
      | some k => s.drop k
      | none => [] := by
    intro s
    induction s with
    | nil => rfl
    | cons b s ih =>
        by_cases hb : b = SOH
        · simp [hb, List.findIdx?_cons]
        · have hb' : (b == SOH) = false := beq_eq_false_iff_ne.mpr hb
          rw [List.dropWhile_cons_of_pos (by simpa using hb), ih, List.findIdx?_cons, hb']
          cases s.findIdx? (· == SOH) <;> rfl
  rw [hdrop, slipToNextStartToken]
  cases (p.strCache.drop 1).findIdx? (· == SOH) with
  | none => rfl
  | some k =>
      change _ = (p.strCache.drop 1).drop k
      rw [erase_strCache, List.drop_drop, Nat.add_comm]

theorem slip_suffix (p : Packet) : p.slipToNextStartToken.strCache <:+ p.strCache := by
  rw [slip_strCache]
  exact (List.dropWhile_suffix _).trans (List.drop_suffix 1 _)

theorem slip_length_lt {p : Packet} (hp : p.strCache ≠ []) :
    p.slipToNextStartToken.strCache.length < p.strCache.length := by
  rw [slip_strCache]
  have hle := (List.dropWhile_suffix (· != SOH) (l := p.strCache.drop 1)).length_le
  have hpos := List.length_pos_iff.mpr hp
  rw [List.length_drop] at hle
  omega

theorem isValidFrame_suffix (p : Packet) : p.isValidFrame.2.strCache <:+ p.strCache := by
  unfold isValidFrame
  split
  · exact List.suffix_refl _
  · split
    · exact slip_suffix p
    · exact List.suffix_refl _

theorem isValidFrame_fst (p : Packet) : p.isValidFrame.1 = isFrameCRCOK p.strCache := by
  unfold isValidFrame
  cases isFrameCRCOK p.strCache
  · simp only [Bool.false_eq_true, if_false]
    split <;> rfl
  · rfl

theorem isValidFrame_of_ok {p : Packet} (h : isFrameCRCOK p.strCache = true) :
    p.isValidFrame = (true, p) := by
  simp [isValidFrame, h]

theorem isValidFrame_of_short {p : Packet} (h : isFrameCRCOK p.strCache = false)
    (hsize : p.strCache.length ≤ 4056) : p.isValidFrame = (false, p) := by
  simp [isValidFrame, h, getSize, Nat.not_lt.mpr hsize]

/-! ## Storing a byte -/

theorem storeByte_suffix (p : Packet) (buff : Byte) :
    (p.storeByte buff).2.strCache <:+ p.strCache ++ [buff] := by
  unfold storeByte
  split
  · exact isValidFrame_suffix _
  · exact List.suffix_refl _

theorem storeByte_suffix_append {p : Packet} {used : List Byte} (hp : p.strCache <:+ used)
    (buff : Byte) : (p.storeByte buff).2.strCache <:+ used ++ [buff] := by
  obtain ⟨before, rfl⟩ := hp
  refine (storeByte_suffix p buff).trans ⟨before, ?_⟩
  rw [List.append_assoc]

theorem storeByte_of_accept {p : Packet} {buff : Byte} (h : (p.storeByte buff).1 = true) :
    buff = EOT ∧ isFrameCRCOK (p.strCache ++ [buff]) = true ∧
      p.storeByte buff = (true, p.append [buff]) := by
  by_cases heot : buff = EOT
  · rw [storeByte, if_pos heot] at h ⊢
    have hok : isFrameCRCOK (p.append [buff]).strCache = true := by
      rw [← isValidFrame_fst]
      exact h
    exact ⟨heot, hok, isValidFrame_of_ok hok⟩
  · simp [storeByte, heot] at h

theorem storeByte_of_ok {p : Packet} {buff : Byte}
    (hok : isFrameCRCOK (p.strCache ++ [buff]) = true) :
    p.storeByte buff = (true, p.append [buff]) := by
  have hlast := getLast?_of_isFrameCRCOK hok
  have heot : buff = EOT := by simpa using hlast
  rw [storeByte, if_pos heot]
  exact isValidFrame_of_ok hok

theorem storeByte_of_short {p : Packet} {buff : Byte}
    (hbad : isFrameCRCOK (p.strCache ++ [buff]) = false)
    (hsize : p.strCache.length < 4056) :
    (p.storeByte buff).1 = false ∧ (p.storeByte buff).2.strCache = p.strCache ++ [buff] := by
  unfold storeByte
  split
  · rw [isValidFrame_of_short hbad (by simpa using hsize)]
    exact ⟨rfl, rfl⟩
  · exact ⟨rfl, rfl⟩

/-! ## The loop after the end of data -/

theorem resyncLoop_of_le (m n : ℕ) (p : Packet) (hm : p.strCache.length ≤ m)
    (hn : p.strCache.length ≤ n) : resyncLoop m p = resyncLoop n p := by
  induction m generalizing n p with
  | zero =>
      have hnil : p.strCache = [] := List.length_eq_zero_iff.mp (Nat.le_zero.mp hm)
      cases n with
      | zero => rfl
      | succ n => simp [resyncLoop, hnil]
  | succ m ih =>
      by_cases hnil : p.strCache = []
      · cases n with
        | zero => simp [resyncLoop, hnil]
        | succ n => simp [resyncLoop, hnil]
      · have hlt := slip_length_lt hnil
        obtain ⟨n, rfl⟩ : ∃ k, n = k + 1 := ⟨n - 1, by omega⟩
        simp only [resyncLoop, hnil, if_false]
        rw [ih n p.slipToNextStartToken (by omega) (by omega)]

theorem resync_eq (p : Packet) :
    p.resync = if p.strCache = [] then p
      else if isFrameCRCOK p.slipToNextStartToken.strCache then p.slipToNextStartToken
      else p.slipToNextStartToken.resync := by
  unfold resync
  by_cases hnil : p.strCache = []
  · simp [hnil, getSize, resyncLoop]
  · obtain ⟨n, hn⟩ : ∃ k, p.getSize = k + 1 :=
      ⟨p.getSize - 1, by have := List.length_pos_iff.mpr hnil; simp only [getSize]; omega⟩
    have hlt := slip_length_lt hnil
    rw [hn, resyncLoop]
    simp only [hnil, if_false]
    rw [resyncLoop_of_le n p.slipToNextStartToken.getSize _ (by simp only [getSize] at hn; omega)
      le_rfl]

theorem slip_induction {motive : Packet → Prop}
    (empty : ∀ p : Packet, p.strCache = [] → motive p)
    (slip : ∀ p : Packet, p.strCache ≠ [] → motive p.slipToNextStartToken → motive p)
    (p : Packet) : motive p := by
  obtain ⟨n, hn⟩ : ∃ n, p.strCache.length = n := ⟨_, rfl⟩
  induction n using Nat.strong_induction_on generalizing p with
  | _ n ih =>
      by_cases hnil : p.strCache = []
      · exact empty p hnil
      · exact slip p hnil (ih _ (hn ▸ slip_length_lt hnil) _ rfl)

theorem resync_sound (p : Packet) :
    p.resync.strCache <:+ p.strCache ∧
      (p.resync.strCache = [] ∨ isFrameCRCOK p.resync.strCache = true) := by
  induction p using slip_induction with
  | empty p hnil =>
      rw [resync_eq, if_pos hnil]
      exact ⟨List.suffix_refl _, Or.inl hnil⟩
  | slip p hnil ih =>
      rw [resync_eq, if_neg hnil]
      split
      · rename_i hok
        exact ⟨slip_suffix p, Or.inr hok⟩
      · exact ⟨ih.1.trans (slip_suffix p), ih.2⟩

/-- A proper suffix of the buffer that a resynchronisation may return. -/
def Candidate (s t : List Byte) : Prop :=
  t <:+ s ∧ t ≠ s ∧ t.head? = some SOH ∧ isFrameCRCOK t = true

/-- What starts with a byte that is not dropped stays whole. -/
theorem suffix_dropWhile {skip : Byte → Bool} {s t : List Byte} {b : Byte} (hts : t <:+ s)
    (hhead : t.head? = some b) (hb : skip b = false) : t <:+ s.dropWhile skip := by
  induction s with
  | nil => simpa using hts
  | cons c s ih =>
      by_cases hc : skip c = true
      · rw [List.dropWhile_cons_of_pos hc]
        rcases List.suffix_cons_iff.mp hts with heq | htail
        · rw [heq] at hhead
          rw [Option.some.inj hhead, hb] at hc
          cases hc
        · exact ih htail
      · rw [List.dropWhile_cons_of_neg hc]
        exact hts

theorem suffix_dropWhile_of_head {s t : List Byte} (hts : t <:+ s)
    (hhead : t.head? = some SOH) : t <:+ s.dropWhile (· != SOH) :=
  suffix_dropWhile hts hhead (by simp)

theorem head?_dropWhile {s : List Byte} (hne : s.dropWhile (· != SOH) ≠ []) :
    (s.dropWhile (· != SOH)).head? = some SOH := by
  rw [List.head?_eq_some_head hne]
  have hhead := List.head_dropWhile_not (p := (· != SOH)) hne
  rw [bne_eq_false_iff_eq] at hhead
  rw [hhead]

theorem candidate_slip {p : Packet} {t : List Byte} (ht : Candidate p.strCache t) :
    t <:+ p.slipToNextStartToken.strCache := by
  obtain ⟨hsuffix, hne, hhead, -⟩ := ht
  rw [slip_strCache]
  cases hs : p.strCache with
  | nil =>
      rw [hs] at hsuffix hne
      exact absurd (List.suffix_nil.mp hsuffix) hne
  | cons b s =>
      rw [hs] at hsuffix hne
      rcases List.suffix_cons_iff.mp hsuffix with heq | htail
      · exact absurd heq hne
      · exact suffix_dropWhile_of_head htail hhead

theorem resync_longest (p : Packet) :
    (Candidate p.strCache p.resync.strCache ∧
      ∀ t, Candidate p.strCache t → t.length ≤ p.resync.strCache.length) ∨
    (p.resync.strCache = [] ∧ ∀ t, ¬ Candidate p.strCache t) := by
  induction p using slip_induction with
  | empty p hnil =>
      right
      rw [resync_eq, if_pos hnil]
      refine ⟨hnil, ?_⟩
      rintro t ⟨hsuffix, hne, -, -⟩
      rw [hnil] at hsuffix hne
      exact hne (List.suffix_nil.mp hsuffix)
  | slip p hnil ih =>
      have hlt := slip_length_lt hnil
      rw [resync_eq, if_neg hnil]
      split
      · rename_i hok
        left
        have hne : p.slipToNextStartToken.strCache ≠ p.strCache := by
          intro heq
          rw [heq] at hlt
          exact lt_irrefl _ hlt
        have hhead : p.slipToNextStartToken.strCache.head? = some SOH := by
          rw [slip_strCache]
          apply head?_dropWhile
          rw [← slip_strCache]
          exact ne_nil_of_isFrameCRCOK hok
        exact ⟨⟨slip_suffix p, hne, hhead, hok⟩,
          fun t ht ↦ (candidate_slip ht).length_le⟩
      · rename_i hok
        have hdown : ∀ t, Candidate p.strCache t → Candidate p.slipToNextStartToken.strCache t := by
          intro t ht
          refine ⟨candidate_slip ht, ?_, ht.2.2.1, ht.2.2.2⟩
          rintro rfl
          exact hok ht.2.2.2
        rcases ih with ⟨hcand, hmax⟩ | ⟨hempty, hnone⟩
        · left
          have hle := hcand.1.length_le
          refine ⟨⟨hcand.1.trans (slip_suffix p), ?_, hcand.2.2⟩, fun t ht ↦ hmax t (hdown t ht)⟩
          intro heq
          rw [heq] at hle
          omega
        · right
          exact ⟨hempty, fun t ht ↦ hnone t (hdown t ht)⟩

/-! ## Calls that return -/

theorem collectFrame_of_accept {p : Packet} {buff : Byte} (h : (p.storeByte buff).1 = true)
    (input : List ReadResult) :
    collectFrame p buff input = ⟨p.append [buff], input, none⟩ := by
  obtain ⟨-, -, heq⟩ := storeByte_of_accept h
  unfold collectFrame
  rw [heq]
  rfl

theorem collectFrame_of_zero {p : Packet} {buff : Byte} (h : (p.storeByte buff).1 = false)
    (rest : List ReadResult) :
    collectFrame p buff (zero :: rest) = ⟨(p.storeByte buff).2.resync, rest, none⟩ := by
  simp [collectFrame, h]

theorem collectFrame_of_byte {p : Packet} {buff : Byte} (h : (p.storeByte buff).1 = false)
    (b : Byte) (rest : List ReadResult) :
    collectFrame p buff (byte b :: rest) = collectFrame (p.storeByte buff).2 b rest := by
  rw [collectFrame]
  simp [h]

theorem collectFrame_complete (p : Packet) (buff : Byte) (input : List ReadResult)
    (h : (collectFrame p buff input).thrown = none) :
    (collectFrame p buff input).packet.strCache = [] ∨
      isFrameCRCOK (collectFrame p buff input).packet.strCache = true := by
  induction input generalizing p buff with
  | nil =>
      cases hstored : (p.storeByte buff).1 with
      | true =>
          rw [collectFrame_of_accept hstored]
          exact Or.inr (storeByte_of_accept hstored).2.1
      | false =>
          simp only [collectFrame, hstored, Bool.false_eq_true, if_false]
          exact (resync_sound _).2
  | cons r input ih =>
      cases hstored : (p.storeByte buff).1 with
      | true =>
          rw [collectFrame_of_accept hstored]
          exact Or.inr (storeByte_of_accept hstored).2.1
      | false =>
          cases r with
          | byte b =>
              rw [collectFrame_of_byte hstored] at h ⊢
              exact ih _ _ h
          | zero =>
              rw [collectFrame_of_zero hstored]
              exact (resync_sound _).2
          | fail e => simp [collectFrame, hstored] at h

theorem scanFrame_complete (p : Packet) (hp : p.strCache = []) (input : List ReadResult)
    (h : (scanFrame p input).thrown = none) :
    (scanFrame p input).packet.strCache = [] ∨
      isFrameCRCOK (scanFrame p input).packet.strCache = true := by
  induction input with
  | nil => exact Or.inl hp
  | cons r input ih =>
      cases r with
      | byte b =>
          simp only [scanFrame] at h ⊢
          split
          · rename_i hb
            rw [if_pos hb] at h
            exact collectFrame_complete p b input h
          · rename_i hb
            rw [if_neg hb] at h
            exact ih h
      | zero => exact Or.inl hp
      | fail e => simp [scanFrame] at h

theorem receiveFrameFrom_complete (p : Packet) (input : List ReadResult)
    (h : (p.receiveFrameFrom input).thrown = none) :
    (p.receiveFrameFrom input).packet.strCache = [] ∨
      isFrameCRCOK (p.receiveFrameFrom input).packet.strCache = true :=
  scanFrame_complete p.clear rfl input h

/-! ## The storage has no influence

Frames are judged by the contents of the string alone, so two packets with the
same contents receive the same from the same reads.
-/

/-- What a failed check leaves: the overflow branch slips once, and the buffer is
not looked at again. -/
def kept (s : List Byte) : List Byte :=
  if isFrameCRCOK s = false ∧ 4056 < s.length then (s.drop 1).dropWhile (· != SOH) else s

theorem isValidFrame_strCache (p : Packet) : p.isValidFrame.2.strCache = kept p.strCache := by
  unfold isValidFrame kept
  cases isFrameCRCOK p.strCache with
  | true => simp
  | false =>
      by_cases hlong : 4056 < p.strCache.length
      · simp [getSize, hlong, slip_strCache]
      · simp [getSize, hlong]

theorem storeByte_congr {p q : Packet} (h : p.strCache = q.strCache) (buff : Byte) :
    (p.storeByte buff).1 = (q.storeByte buff).1 ∧
      (p.storeByte buff).2.strCache = (q.storeByte buff).2.strCache := by
  have happ : (p.append [buff]).strCache = (q.append [buff]).strCache := by simp [h]
  unfold storeByte
  split
  · constructor
    · rw [isValidFrame_fst, isValidFrame_fst, happ]
    · rw [isValidFrame_strCache, isValidFrame_strCache, happ]
  · exact ⟨rfl, happ⟩

theorem resync_congr {p q : Packet} (h : p.strCache = q.strCache) :
    p.resync.strCache = q.resync.strCache := by
  induction p using slip_induction generalizing q with
  | empty p hnil =>
      have hq : q.strCache = [] := h ▸ hnil
      rw [resync_eq, if_pos hnil, resync_eq q, if_pos hq, h]
  | slip p hnil ih =>
      have hq : q.strCache ≠ [] := h ▸ hnil
      have hslip : p.slipToNextStartToken.strCache = q.slipToNextStartToken.strCache := by
        rw [slip_strCache, slip_strCache, h]
      rw [resync_eq p, if_neg hnil, resync_eq q, if_neg hq, hslip]
      split
      · exact hslip
      · exact ih hslip

/-- What a caller can see of a call. -/
def seen (r : Received) : List Byte × List ReadResult × Option ChannelException :=
  (r.packet.strCache, r.rest, r.thrown)

theorem collectFrame_congr {p q : Packet} (h : p.strCache = q.strCache) (buff : Byte)
    (input : List ReadResult) :
    seen (collectFrame p buff input) = seen (collectFrame q buff input) := by
  induction input generalizing p q buff with
  | nil =>
      obtain ⟨hval, hbuf⟩ := storeByte_congr h buff
      simp only [collectFrame, ← hval]
      split
      · simp [seen, hbuf]
      · simp [seen, resync_congr hbuf]
  | cons r rest ih =>
      obtain ⟨hval, hbuf⟩ := storeByte_congr h buff
      unfold collectFrame
      simp only [← hval]
      split
      · simp [seen, hbuf]
      · cases r with
        | byte b => exact ih hbuf b
        | zero => simp [seen, resync_congr hbuf]
        | fail e => simp [seen, hbuf]

theorem scanFrame_congr {p q : Packet} (h : p.strCache = q.strCache) (input : List ReadResult) :
    seen (scanFrame p input) = seen (scanFrame q input) := by
  induction input with
  | nil => simp [scanFrame, seen, h]
  | cons r rest ih =>
      cases r with
      | byte b =>
          simp only [scanFrame]
          split
          · exact collectFrame_congr h b rest
          · exact ih
      | zero => simp [scanFrame, seen, h]
      | fail e => simp [scanFrame, seen, h]

theorem receiveFrameFrom_congr (p q : Packet) (input : List ReadResult) :
    seen (p.receiveFrameFrom input) = seen (q.receiveFrameFrom input) := by
  apply scanFrame_congr
  rw [clear_strCache, clear_strCache]

/-! ## What is left of the reads -/

theorem collectFrame_rest (p : Packet) (buff : Byte) (input : List ReadResult) :
    (collectFrame p buff input).rest <:+ input ∧
      ∀ e, (collectFrame p buff input).thrown = some e → fail e ∈ input := by
  induction input generalizing p buff with
  | nil =>
      cases hstored : (p.storeByte buff).1 with
      | true => simp [collectFrame_of_accept hstored]
      | false => simp [collectFrame, hstored]
  | cons r rest ih =>
      cases hstored : (p.storeByte buff).1 with
      | true => simp [collectFrame_of_accept hstored]
      | false =>
          cases r with
          | byte b =>
              obtain ⟨hrest, hthrown⟩ := ih (p.storeByte buff).2 b
              rw [collectFrame_of_byte hstored]
              exact ⟨hrest.trans (List.suffix_cons _ _),
                fun e he ↦ List.mem_cons_of_mem _ (hthrown e he)⟩
          | zero => simp [collectFrame_of_zero hstored]
          | fail e => simp [collectFrame, hstored]

theorem scanFrame_rest (p : Packet) (input : List ReadResult) :
    (scanFrame p input).rest <:+ input ∧
      ∀ e, (scanFrame p input).thrown = some e → fail e ∈ input := by
  induction input with
  | nil => exact ⟨List.suffix_refl _, by simp [scanFrame]⟩
  | cons r rest ih =>
      cases r with
      | byte b =>
          simp only [scanFrame]
          split
          · obtain ⟨hrest, hthrown⟩ := collectFrame_rest p b rest
            exact ⟨hrest.trans (List.suffix_cons _ _),
              fun e he ↦ List.mem_cons_of_mem _ (hthrown e he)⟩
          · exact ⟨ih.1.trans (List.suffix_cons _ _),
              fun e he ↦ List.mem_cons_of_mem _ (ih.2 e he)⟩
      | zero => exact ⟨List.suffix_cons _ _, by simp [scanFrame]⟩
      | fail e => exact ⟨List.suffix_cons _ _, by simp [scanFrame]⟩

/-- A call that ends with nothing has used up the bytes and the read behind them. -/
theorem collectFrame_stop (p : Packet) (buff : Byte) (bs : List Byte) {r : ReadResult}
    (hr : ∀ b, r ≠ byte b) (tail : List ReadResult) :
    (collectFrame p buff (bs.map byte ++ r :: tail)).packet.strCache ≠ [] ∨
      (collectFrame p buff (bs.map byte ++ r :: tail)).rest = tail := by
  induction bs generalizing p buff with
  | nil =>
      cases hstored : (p.storeByte buff).1 with
      | true => exact Or.inl (by simp [collectFrame_of_accept hstored])
      | false =>
          right
          cases r with
          | byte b => exact absurd rfl (hr b)
          | zero => simp [collectFrame_of_zero hstored]
          | fail e => simp [collectFrame, hstored]
  | cons b bs ih =>
      cases hstored : (p.storeByte buff).1 with
      | true => exact Or.inl (by simp [collectFrame_of_accept hstored])
      | false =>
          rw [List.map_cons, List.cons_append, collectFrame_of_byte hstored]
          exact ih (p.storeByte buff).2 b

theorem receiveFrameFrom_stop (p : Packet) (bs : List Byte) {r : ReadResult}
    (hr : ∀ b, r ≠ byte b) (tail : List ReadResult) :
    (p.receiveFrameFrom (bs.map byte ++ r :: tail)).packet.strCache ≠ [] ∨
      (p.receiveFrameFrom (bs.map byte ++ r :: tail)).rest = tail := by
  unfold receiveFrameFrom
  induction bs with
  | nil =>
      right
      cases r with
      | byte b => exact absurd rfl (hr b)
      | zero => rfl
      | fail e => rfl
  | cons b bs ih =>
      simp only [List.map_cons, List.cons_append, scanFrame]
      split
      · exact collectFrame_stop p.clear b bs hr tail
      · exact ih

/-- The reads left are the last ones, and an exception that is passed on was
among the reads. -/
theorem receiveFrameFrom_rest (p : Packet) (input : List ReadResult) :
    (p.receiveFrameFrom input).rest <:+ input ∧
      ∀ e, (p.receiveFrameFrom input).thrown = some e → fail e ∈ input :=
  scanFrame_rest p.clear input

end Packet

end DeviceAgent
