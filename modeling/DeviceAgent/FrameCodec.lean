import DeviceAgent.FrameReception
import DeviceAgent.PacketQueue

/-!
# Frames as a code

`BuildPacket` is the encoder, the frame check behind `ReceiveFrameFrom` and
`Load` is the decoder.  Whatever is encoded is accepted and can be read back.
The converse fails at the head: the check compares `ETX` and `EOT`, the
receiver looks for `SOH`, and nobody looks at `STX`.
-/

namespace DeviceAgent

open ReadResult

/-! ## Decoding what was encoded -/

theorem crcHigh_append (high low : Byte) : crcHigh (high ++ low) = high := by
  apply BitVec.eq_of_getLsbD_eq
  intro i hi
  have hmask : (0x00ff#16).getLsbD i = true := by
    interval_cases i <;> rfl
  rw [crcHigh, BitVec.getLsbD_setWidth, BitVec.getLsbD_and, hmask, BitVec.getLsbD_ushiftRight,
    BitVec.getLsbD_append]
  simp [hi]

theorem crcLow_append (high low : Byte) : crcLow (high ++ low) = low := by
  apply BitVec.eq_of_getLsbD_eq
  intro i hi
  have hmask : (0x00ff#16).getLsbD i = true := by
    interval_cases i <;> rfl
  rw [crcLow, BitVec.getLsbD_setWidth, BitVec.getLsbD_and, hmask, BitVec.getLsbD_append]
  simp [hi]

theorem crcHigh_append_crcLow (crc : Word) : crcHigh crc ++ crcLow crc = crc := by
  rw [← joinCRC_eq_append, joinCRC_split]

theorem isFrameCRCOK_buildPacket (p : Packet) {content : List Byte} (machine : Byte)
    (hcontent : 2 ≤ content.length) :
    isFrameCRCOK (p.buildPacket content machine).strCache = true := by
  rw [buildPacket_strCache]
  refine (isFrameCRCOK_parts _ _ _ _ _ _ _).mpr ⟨?_, rfl, ?_, ?_⟩
  · rw [List.length_append, List.length_singleton]
    omega
  · rw [List.getLast?_append, List.getLast?_singleton, Option.some_or]
  · rw [crcHigh_append_crcLow]

theorem length_buildPacket (p : Packet) (content : List Byte) (machine : Byte) :
    (p.buildPacket content machine).strCache.length = content.length + 7 := by
  rw [buildPacket_strCache]
  simp

theorem machine_buildPacket (p : Packet) (content : List Byte) (machine : Byte) :
    (p.buildPacket content machine).strCache[1]? = some machine := by
  rw [buildPacket_strCache]
  rfl

theorem content_buildPacket (p : Packet) (content : List Byte) (machine : Byte) :
    ((p.buildPacket content machine).strCache.drop 3).take content.length = content := by
  rw [buildPacket_strCache]
  simp

theorem etx_buildPacket (p : Packet) (content : List Byte) (machine : Byte) :
    (p.buildPacket content machine).strCache[3 + content.length]? = some ETX := by
  rw [buildPacket_strCache, Nat.add_comm]
  simp

theorem buildPacket_injective {p p' : Packet} {content content' : List Byte}
    {machine machine' : Byte}
    (h : (p.buildPacket content machine).strCache = (p'.buildPacket content' machine').strCache) :
    content = content' ∧ machine = machine' := by
  have hlen := congrArg List.length h
  rw [length_buildPacket, length_buildPacket, Nat.add_right_cancel_iff] at hlen
  constructor
  · rw [← content_buildPacket p content machine, ← content_buildPacket p' content' machine', h,
      hlen]
  · have hmachine := machine_buildPacket p content machine
    rw [h, machine_buildPacket] at hmachine
    exact (Option.some.inj hmachine).symm

/-- The command word is where both command decoders look for it. -/
theorem cmdField_buildPacket (p : Packet) (word : Byte × Byte) (rest : List Byte)
    (machine : Byte) :
    (p.buildPacket (word.1 :: word.2 :: rest) machine).cmdField = word := by
  have hlen := length_buildPacket p (word.1 :: word.2 :: rest) machine
  simp only [List.length_cons] at hlen
  rw [Packet.cmdField, Packet.byteAt_of_lt _ (by omega), Packet.byteAt_of_lt _ (by omega),
    buildPacket_strCache]
  rfl

/-- The loop over `cmdWord` finds the first entry with the word. -/
theorem commandOf_first {c : CommunicationCommand} {word : Byte × Byte}
    (h : (c, word) ∈ cmdWord) :
    ∃ before first after, cmdWord = before ++ (first, word) :: after ∧
      (∀ entry ∈ before, entry.2 ≠ word) ∧ commandOf word = first := by
  have hsome : (cmdWord.find? fun entry ↦ entry.2 == word).isSome = true := by
    rw [List.find?_isSome]
    exact ⟨(c, word), h, by simp⟩
  obtain ⟨⟨first, found⟩, hfind⟩ := Option.isSome_iff_exists.mp hsome
  obtain ⟨hfound, before, after, hsplit, hbefore⟩ := List.find?_eq_some_iff_append.mp hfind
  obtain rfl : found = word := by simpa using hfound
  refine ⟨before, first, after, hsplit, ?_, by simp [commandOf, hfind]⟩
  intro entry hentry
  simpa using hbefore entry hentry

/-- Everything the encoder produces is accepted and decodes to what was encoded:
the machine, the content up to `ETX`, and the command. -/
theorem buildPacket_decodes :
    (∀ (p : Packet) (content : List Byte) (machine : Byte), 2 ≤ content.length →
      isFrameCRCOK (p.buildPacket content machine).strCache = true ∧
      (p.buildPacket content machine).strCache[1]? = some machine ∧
      ((p.buildPacket content machine).strCache.drop 3).take content.length = content ∧
      (p.buildPacket content machine).strCache[3 + content.length]? = some ETX ∧
      ∀ c word, (c, word) ∈ cmdWord → content.take 2 = [word.1, word.2] →
        ∃ before first after, cmdWord = before ++ (first, word) :: after ∧
          (∀ entry ∈ before, entry.2 ≠ word) ∧
          (p.buildPacket content machine).frameCommandType = first ∧
          (p.buildPacket content machine).commandType = first) ∧
    ∀ (p p' : Packet) (content content' : List Byte) (machine machine' : Byte),
      2 ≤ content.length → 2 ≤ content'.length →
      (p.buildPacket content machine).strCache = (p'.buildPacket content' machine').strCache →
      content = content' ∧ machine = machine' := by
  refine ⟨fun p content machine hcontent ↦ ?_, fun p p' content content' machine machine' _ _ h ↦
    buildPacket_injective h⟩
  refine ⟨isFrameCRCOK_buildPacket p machine hcontent, machine_buildPacket p content machine,
    content_buildPacket p content machine, etx_buildPacket p content machine, ?_⟩
  intro c word hword htake
  obtain ⟨before, first, after, hsplit, hbefore, hcommand⟩ := commandOf_first hword
  obtain ⟨rest, rfl⟩ : ∃ rest, content = word.1 :: word.2 :: rest :=
    ⟨content.drop 2, by rw [← List.take_append_drop 2 content, htake]; rfl⟩
  have hsize : 4 < (p.buildPacket (word.1 :: word.2 :: rest) machine).getSize := by
    rw [Packet.getSize, length_buildPacket]
    omega
  refine ⟨before, first, after, hsplit, hbefore, ?_, ?_⟩
  · rw [Packet.frameCommandType, if_pos hsize, cmdField_buildPacket, hcommand]
  · rw [Packet.commandType, cmdField_buildPacket, hcommand]

/-- A request for current data. -/
theorem buildPacket_decodes_request :
    isFrameCRCOK ((Packet.mk [] []).buildPacket [0x72#8, 0x61#8] 0x01#8).strCache = true ∧
      ((Packet.mk [] []).buildPacket [0x72#8, 0x61#8] 0x01#8).strCache[1]? = some 0x01#8 := by
  obtain ⟨hok, hmachine, -⟩ :=
    buildPacket_decodes.1 ⟨[], []⟩ [0x72#8, 0x61#8] 0x01#8 (by decide)
  exact ⟨hok, hmachine⟩

/-! ## Encoding what was decoded -/

def Encoded (s : List Byte) : Prop :=
  ∃ content machine, 2 ≤ content.length ∧
    s = ((Packet.mk [] []).buildPacket content machine).strCache

theorem exists_parts {s : List Byte} (hlen : 9 ≤ s.length) :
    ∃ h₀ h₁ h₂ body high low last, s = h₀ :: h₁ :: h₂ :: (body ++ [high, low, last]) := by
  obtain ⟨h₀, h₁, h₂, t, rfl⟩ : ∃ h₀ h₁ h₂ t, s = h₀ :: h₁ :: h₂ :: t := by
    match s, hlen with
    | h₀ :: h₁ :: h₂ :: t, _ => exact ⟨h₀, h₁, h₂, t, rfl⟩
  have htail : (t.drop (t.length - 3)).length = 3 := by
    simp only [List.length_cons] at hlen
    rw [List.length_drop]
    omega
  obtain ⟨high, low, last, hend⟩ := List.length_eq_three.mp htail
  exact ⟨h₀, h₁, h₂, t.take (t.length - 3), high, low, last, by rw [← hend, List.take_append_drop]⟩

/-- Of what the check lets through, the two symbols it does not look at decide
whether the encoder could have made it. -/
theorem encoded_iff {s : List Byte} (hok : isFrameCRCOK s = true) :
    Encoded s ↔ s[0]? = some SOH ∧ s[2]? = some STX := by
  constructor
  · rintro ⟨content, machine, -, rfl⟩
    rw [buildPacket_strCache]
    exact ⟨rfl, rfl⟩
  · obtain ⟨h₀, h₁, h₂, body, high, low, last, rfl⟩ := exists_parts (length_ge_of_isFrameCRCOK hok)
    rintro ⟨hsoh, hstx⟩
    obtain rfl : h₀ = SOH := Option.some.inj hsoh
    obtain rfl : h₂ = STX := Option.some.inj hstx
    obtain ⟨hlen, rfl, hetx, hcrc⟩ := (isFrameCRCOK_parts _ _ _ _ _ _ _).mp hok
    obtain ⟨content, rfl⟩ := List.getLast?_eq_some_iff.mp hetx
    rw [List.length_append, List.length_singleton] at hlen
    refine ⟨content, h₁, by omega, ?_⟩
    rw [buildPacket_strCache, hcrc, crcHigh_append, crcLow_append]

/-- The stretch of a stream that the receiver delivers: from the first `SOH` on
the shortest prefix that passes the check, or else the longest later suffix that
starts with `SOH` and passes. -/
def Accepted (bs t : List Byte) : Prop :=
  let s := bs.dropWhile (· != SOH)
  (t <+: s ∧ isFrameCRCOK t = true ∧
    ∀ v, v <+: s → isFrameCRCOK v = true → t.length ≤ v.length) ∨
  ((∀ v, v <+: s → isFrameCRCOK v = false) ∧ Packet.Candidate s t ∧
    ∀ v, Packet.Candidate s v → v.length ≤ t.length)

theorem Accepted.ok {bs t : List Byte} (h : Accepted bs t) : isFrameCRCOK t = true := by
  rcases h with ⟨-, hok, -⟩ | ⟨-, hcand, -⟩
  · exact hok
  · exact hcand.2.2.2

theorem Accepted.head {bs t : List Byte} (h : Accepted bs t) : t[0]? = some SOH := by
  rcases h with ⟨hinit, hok, -⟩ | ⟨-, hcand, -⟩
  · obtain ⟨more, hmore⟩ := hinit
    have hne : bs.dropWhile (· != SOH) ≠ [] := by
      rw [← hmore]
      simp [ne_nil_of_isFrameCRCOK hok]
    have hhead := Packet.head?_dropWhile hne
    rw [← hmore, List.head?_append_of_ne_nil _ (ne_nil_of_isFrameCRCOK hok)] at hhead
    rw [← List.head?_eq_getElem?]
    exact hhead
  · rw [← List.head?_eq_getElem?]
    exact hcand.2.2.1

theorem Accepted.unique {bs t u : List Byte} (ht : Accepted bs t) (hu : Accepted bs u) :
    t = u := by
  rcases ht with ⟨htp, htok, htmin⟩ | ⟨htnone, htc, htmax⟩ <;>
    rcases hu with ⟨hup, huok, humin⟩ | ⟨hunone, huc, humax⟩
  · have hlen := le_antisymm (htmin u hup huok) (humin t htp htok)
    exact (List.prefix_of_prefix_length_le htp hup hlen.le).eq_of_length hlen
  · exact absurd (hunone t htp) (by simp [htok])
  · exact absurd (htnone u hup) (by simp [huok])
  · have hlen := le_antisymm (humax t htc) (htmax u huc)
    exact (List.suffix_of_suffix_length_le htc.1 huc.1 hlen.le).eq_of_length hlen

theorem notMem_takeWhile_ne (bs : List Byte) : SOH ∉ bs.takeWhile (· != SOH) := by
  intro hmem
  simpa using List.mem_takeWhile_imp hmem

/-- Below the overflow limit the receiver delivers the accepted stretch, or
nothing when there is none. -/
theorem receiveFrameFrom_accepted (p : Packet) (bs : List Byte) (tail : List ReadResult)
    (hsize : bs.length ≤ 4056) :
    Accepted bs (p.receiveFrameFrom (bs.map byte ++ zero :: tail)).packet.strCache ∨
      ((p.receiveFrameFrom (bs.map byte ++ zero :: tail)).packet.strCache = [] ∧
        ∀ t, ¬ Accepted bs t) := by
  have hquiet := notMem_takeWhile_ne bs
  have hsplit := List.takeWhile_append_dropWhile (p := (· != SOH)) (l := bs)
  have hrest : (bs.dropWhile (· != SOH)).length ≤ 4056 :=
    (List.dropWhile_suffix _).length_le.trans hsize
  unfold Accepted
  generalize bs.takeWhile (· != SOH) = noise at hquiet hsplit
  generalize hs : bs.dropWhile (· != SOH) = s at hsplit hrest
  have hinput : bs.map byte ++ zero :: tail =
      noise.map byte ++ (s.map byte ++ zero :: tail) := by
    rw [← hsplit, List.map_append, List.append_assoc]
  rw [hinput]
  by_cases hsome : ∃ v, v <+: s ∧ isFrameCRCOK v = true
  · obtain ⟨v, hv, hvok⟩ := hsome
    obtain ⟨t, hts, hok, hmin⟩ := Packet.exists_shortest_prefix hv hvok
    have hhead : s.head? = some SOH := by
      rw [← hs]
      apply Packet.head?_dropWhile
      rw [hs]
      rintro rfl
      exact ne_nil_of_isFrameCRCOK hvok (List.prefix_nil.mp hv)
    have hshort : t.length ≤ 4057 := by
      have := hts.length_le
      omega
    have hwire := Packet.wireFrame_of_shortest hhead hts hok hshort hmin
    obtain ⟨unread, rfl⟩ := hts
    rw [List.map_append, List.append_assoc]
    obtain ⟨-, hpacket, -⟩ := Packet.receiveFrameFrom_wireFrame p hquiet hwire
      (unread.map byte ++ zero :: tail)
    rw [hpacket]
    exact Or.inl (Or.inl ⟨List.prefix_append _ _, hok, hmin⟩)
  · have hnone : ∀ v, v <+: s → isFrameCRCOK v = false := by
      intro v hv
      by_contra hok
      exact hsome ⟨v, hv, by simpa using hok⟩
    cases s with
    | nil =>
        right
        rw [Packet.receiveFrameFrom, Packet.scanFrame_noise _ _ hquiet]
        refine ⟨rfl, ?_⟩
        rintro t (⟨hpre, hok, -⟩ | ⟨-, hcand, -⟩)
        · exact absurd (hnone t hpre) (by simp [hok])
        · exact hcand.2.1 (List.suffix_nil.mp hcand.1)
    | cons b more =>
        have hb : b = SOH := by
          have hhead := Packet.head?_dropWhile (s := bs) (by rw [hs]; simp)
          rw [hs] at hhead
          exact Option.some.inj hhead
        obtain ⟨q, hq, heq⟩ := Packet.collectFrame_of_none p.clear b more tail hrest
          (fun pre post hmore ↦ hnone (b :: pre) ⟨post, by rw [hmore]; rfl⟩)
        have hbuf : q.strCache = b :: more := hq
        have hrecv : p.receiveFrameFrom (noise.map byte ++ ((b :: more).map byte ++ zero :: tail)) =
            ⟨q.resync, tail, none⟩ := by
          rw [Packet.receiveFrameFrom, Packet.scanFrame_noise _ _ hquiet, List.map_cons,
            List.cons_append, Packet.scanFrame, if_pos hb]
          exact heq
        rw [hrecv, ← hbuf]
        rcases Packet.resync_longest q with ⟨hcand, hmax⟩ | ⟨hempty, hno⟩
        · refine Or.inl (Or.inr ⟨?_, hcand, hmax⟩)
          rw [hbuf]
          exact hnone
        · refine Or.inr ⟨hempty, ?_⟩
          rw [hbuf] at hno ⊢
          rintro t (⟨hpre, hok, -⟩ | ⟨-, hcand, -⟩)
          · exact absurd (hnone t hpre) (by simp [hok])
          · exact hno t hcand

namespace DataPacketQueue

/-- The payloads that the loop of `Load` reads whole, before any check. -/
def payloads : ℕ → File → List (List Byte)
  | 0, _ => []
  | fuel + 1, file =>
      if file.eof then []
      else
        match file.fread 4 with
        | (none, _) => []
        | (some word, file) =>
            if 0 < readInt word ∧ readInt word < 5000 then
              match file.fread (readInt word).toNat with
              | (some buf, file) => buf :: payloads fuel file
              | (none, file) => payloads fuel file
            else payloads fuel file

/-- The packets that `Load` passes to `Push` for a file with these contents. -/
def handed (bytes : List Byte) : List Packet :=
  ((payloads (bytes.length + 1) ⟨bytes, false⟩).filter isFrameCRCOK).map
    (Packet.mk [] []).setPacket

theorem loadLoop_eq_foldl (fuel : ℕ) (file : File) (queue loaded : List Packet)
    (h : loadLoop fuel file queue = some loaded) :
    loaded = (((payloads fuel file).filter isFrameCRCOK).map
      (Packet.mk [] []).setPacket).foldl push queue := by
  induction fuel generalizing file queue with
  | zero => cases h
  | succ fuel ih =>
      rw [loadLoop] at h
      rw [payloads]
      cases heof : file.eof with
      | true =>
          rw [heof, if_pos rfl] at h
          exact (Option.some.inj h).symm
      | false =>
          simp only [heof, Bool.false_eq_true, if_false] at h ⊢
          rcases hword : file.fread 4 with ⟨word, file₁⟩
          rw [hword] at h
          cases word with
          | none => exact (Option.some.inj h).symm
          | some word =>
              simp only at h ⊢
              by_cases hrange : 0 < readInt word ∧ readInt word < 5000
              · rw [if_pos hrange] at h ⊢
                rcases hbuf : file₁.fread (readInt word).toNat with ⟨buf, file₂⟩
                rw [hbuf] at h
                cases buf with
                | none => exact ih file₂ queue h
                | some buf =>
                    simp only at h ⊢
                    cases hok : isFrameCRCOK buf with
                    | true =>
                        rw [hok, if_pos rfl] at h
                        rw [List.filter_cons_of_pos hok]
                        exact ih file₂ _ h
                    | false =>
                        rw [hok, if_neg (by decide)] at h
                        rw [List.filter_cons_of_neg (by simp [hok])]
                        exact ih file₂ queue h
              · rw [if_neg hrange] at h ⊢
                exact ih file₁ queue h

theorem load_eq_foldl (bytes : List Byte) (queue : List Packet) :
    load (some bytes) queue = (handed bytes).foldl push [] := by
  obtain ⟨loaded, hloaded⟩ := loadLoop_terminates bytes []
  have hrun := hloaded (bytes.length + 1) (Nat.lt_succ_self _)
  rw [load, hrun, Option.getD_some]
  exact loadLoop_eq_foldl _ _ _ _ hrun

theorem handed_encoded_iff (bytes : List Byte) :
    (∀ p ∈ handed bytes, Encoded p.strCache) ↔
      ∀ buf ∈ payloads (bytes.length + 1) ⟨bytes, false⟩, isFrameCRCOK buf = true →
        buf[0]? = some SOH ∧ buf[2]? = some STX := by
  have hset : ∀ buf, ((Packet.mk [] []).setPacket buf).strCache = buf := fun buf ↦ rfl
  constructor
  · intro h buf hbuf hok
    rw [← encoded_iff hok, ← hset buf]
    exact h _ (List.mem_map_of_mem (List.mem_filter.mpr ⟨hbuf, hok⟩))
  · intro h p hp
    obtain ⟨buf, hbuf, rfl⟩ := List.mem_map.mp hp
    obtain ⟨hmem, hok⟩ := List.mem_filter.mp hbuf
    rw [hset, encoded_iff hok]
    exact h buf hmem hok

end DataPacketQueue

/-- The decoder accepts only what the encoder can produce exactly when `STX` is
in place in what it accepts, and for a file `SOH` too. -/
theorem decoded_encoded_iff (p : Packet) (bs : List Byte) (tail : List ReadResult)
    (bytes : List Byte) (queue : List Packet) :
    (bs.length ≤ 4056 →
      (((p.receiveFrameFrom (bs.map byte ++ zero :: tail)).packet.strCache ≠ [] →
          Encoded (p.receiveFrameFrom (bs.map byte ++ zero :: tail)).packet.strCache) ↔
        ∀ t, Accepted bs t → t[2]? = some STX)) ∧
    DataPacketQueue.load (some bytes) queue =
      (DataPacketQueue.handed bytes).foldl DataPacketQueue.push [] ∧
    ((∀ packet ∈ DataPacketQueue.handed bytes, Encoded packet.strCache) ↔
      ∀ buf ∈ DataPacketQueue.payloads (bytes.length + 1) ⟨bytes, false⟩,
        isFrameCRCOK buf = true → buf[0]? = some SOH ∧ buf[2]? = some STX) := by
  refine ⟨fun hsize ↦ ?_, DataPacketQueue.load_eq_foldl bytes queue,
    DataPacketQueue.handed_encoded_iff bytes⟩
  rcases receiveFrameFrom_accepted p bs tail hsize with hacc | ⟨hempty, hnone⟩
  · rw [encoded_iff hacc.ok]
    constructor
    · intro h t ht
      rw [ht.unique hacc]
      exact (h (ne_nil_of_isFrameCRCOK hacc.ok)).2
    · exact fun h _ ↦ ⟨hacc.head, h _ hacc⟩
  · constructor
    · exact fun _ t ht ↦ absurd ht (hnone t)
    · exact fun _ hne ↦ absurd hempty hne

/-- A request for current data with a zero in the place of `STX`. -/
def frameWithoutSTX : List Byte := Packet.requestFrame.set 2 0x00#8

theorem decoded_encoded_iff_request :
    Packet.requestFrame.length ≤ 4056 ∧
      (((Packet.mk [] []).receiveFrameFrom
          (Packet.requestFrame.map byte ++ [zero])).packet.strCache ≠ [] →
        Encoded ((Packet.mk [] []).receiveFrameFrom
          (Packet.requestFrame.map byte ++ [zero])).packet.strCache) := by
  refine ⟨by decide, ((decoded_encoded_iff _ _ [] [] []).1 (by decide)).mpr fun t ht ↦ ?_⟩
  have hself : Accepted Packet.requestFrame Packet.requestFrame := by
    refine Or.inl ⟨List.prefix_refl _, Packet.wireFrame_requestFrame.ok, fun v hv hok ↦ ?_⟩
    exact length_ge_of_isFrameCRCOK hok
  rw [ht.unique hself]
  rfl

/-- The receiver delivers it and `Load` restores it, but no content and machine
encode to it. -/
theorem accepted_without_STX :
    ((Packet.mk [] []).receiveFrameFrom (frameWithoutSTX.map byte ++ [zero])).packet.strCache =
        frameWithoutSTX ∧
      (DataPacketQueue.handed (DataPacketQueue.record ⟨frameWithoutSTX, []⟩)).map Packet.strCache =
        [frameWithoutSTX] ∧
      ¬ Encoded frameWithoutSTX := by
  have hok : isFrameCRCOK frameWithoutSTX = true := by decide +kernel
  refine ⟨by decide +kernel, by decide +kernel, ?_⟩
  rw [encoded_iff hok]
  decide +kernel

end DeviceAgent
