import DeviceAgent.PacketQueue
import DeviceAgent.Resynchronisation

/-!
# Frames in the queue's file

`Load` trusts the length words of its file and nothing else.  As long as they are
right, a damaged payload costs its own record only, and whatever a file holds, what
comes out of it are frames.  A length of 5000 or more is taken for damage and its
payload for the records that follow; the receiver knows no such limit.
-/

namespace DeviceAgent

open ReadResult

namespace DataPacketQueue

/-! ## Any file -/

theorem load_eq_loadLoop (bytes : List Byte) (old : List Packet) {fuel : ℕ}
    (hfuel : bytes.length < fuel) :
    loadLoop fuel ⟨bytes, false⟩ [] = some (load (some bytes) old) := by
  obtain ⟨loaded, hloaded⟩ := loadLoop_terminates bytes []
  have hrun := hloaded fuel hfuel
  rw [load_eq_of_loadLoop hfuel hrun old]
  exact hrun

theorem load_pieces (bytes : List Byte) (old : List Packet) :
    ∀ p ∈ load (some bytes) old, p.strCache <:+: bytes := by
  have hrun := load_eq_loadLoop bytes old (Nat.lt_succ_self bytes.length)
  refine loadLoop_invariant (fun queue ↦ ∀ p ∈ queue, p.strCache <:+: bytes) ?_ _ _ [] _
    (List.suffix_refl bytes) (by simp) hrun
  intro queue buf hqueue hpiece _ _ p hp
  rcases mem_of_mem_push hp with hold | rfl
  · exact hqueue p hold
  · exact hpiece

/-! ## Damaged payloads -/

/-- A packet in the file and what its payload has been replaced by, if it has.  The
length word is as `Save` wrote it. -/
structure StoredRecord where
  packet : Packet
  storable : Storable packet
  altered : Option (List Byte)
  damaged : ∀ payload ∈ altered,
    payload.length = packet.getSize ∧ isFrameCRCOK payload = false

namespace StoredRecord

def payload (r : StoredRecord) : List Byte := r.altered.getD r.packet.strCache

def bytes (r : StoredRecord) : List Byte :=
  writeInt (BitVec.ofNat 32 r.packet.getSize) ++ r.payload

/-- The packets whose payloads are as they were. -/
def intact (records : List StoredRecord) : List Packet :=
  (records.filter fun r ↦ r.altered.isNone).map packet

theorem bytes_of_intact {r : StoredRecord} (h : r.altered = none) : r.bytes = record r.packet := by
  rw [record_eq r.storable, bytes, payload, h, Option.getD_none]

/-- Without damage the file is the one `Save` wrote. -/
theorem flatMap_bytes_of_intact {records : List StoredRecord}
    (h : ∀ r ∈ records, r.altered = none) :
    records.flatMap bytes = save (records.map packet) := by
  induction records with
  | nil => rfl
  | cons r records ih =>
      have hrest := ih fun s hs ↦ h s (List.mem_cons_of_mem r hs)
      simp only [List.flatMap_cons, List.map_cons, save, bytes_of_intact (h r (by simp)), hrest]

theorem intact_sublist (records : List StoredRecord) :
    (intact records).Sublist (records.map packet) := by
  unfold intact
  exact List.filter_sublist.map packet

/-- One pass of the loop takes one record from the file, damaged or not. -/
theorem loadLoop_bytes (r : StoredRecord) (fuel : ℕ) (rest : List Byte) (queue : List Packet) :
    loadLoop (fuel + 1) ⟨r.bytes ++ rest, false⟩ queue =
      loadLoop fuel ⟨rest, false⟩
        (if r.altered.isNone then push queue (reloaded r.packet) else queue) := by
  cases haltered : r.altered with
  | none =>
      rw [bytes_of_intact haltered, loadLoop_record r.storable]
      rfl
  | some payload =>
      obtain ⟨hlen, hbad⟩ := r.damaged payload haltered
      have hpos : 0 < r.packet.getSize := by
        have hnine := length_ge_of_isFrameCRCOK r.storable.1
        rw [Packet.getSize]
        omega
      have hbytes : r.bytes = writeInt (BitVec.ofNat 32 r.packet.getSize) ++ payload := by
        rw [bytes, StoredRecord.payload, haltered, Option.getD_some]
      rw [hbytes, List.append_assoc, loadLoop_payload hpos r.storable.2 hlen, hbad]
      rfl

/-- The place in the file stays right past the damaged records, and the others are
appended in order. -/
theorem loadLoop_records (records : List StoredRecord) (queue : List Packet)
    (hnos : ((queue ++ intact records).map Packet.getDataNo).Nodup) (fuel : ℕ)
    (rest : List Byte) :
    loadLoop (fuel + records.length) ⟨records.flatMap bytes ++ rest, false⟩ queue =
      loadLoop fuel ⟨rest, false⟩ (queue ++ (intact records).map reloaded) := by
  induction records generalizing queue with
  | nil => simp [intact]
  | cons r records ih =>
      have hstep : loadLoop (fuel + (r :: records).length)
          ⟨(r :: records).flatMap bytes ++ rest, false⟩ queue =
          loadLoop (fuel + records.length) ⟨records.flatMap bytes ++ rest, false⟩
            (if r.altered.isNone then push queue (reloaded r.packet) else queue) := by
        rw [List.flatMap_cons, List.append_assoc, List.length_cons, ← Nat.add_assoc,
          loadLoop_bytes]
      rw [hstep]
      cases haltered : r.altered with
      | none =>
          have hintact : intact (r :: records) = r.packet :: intact records := by
            simp [intact, haltered]
          rw [hintact] at hnos ⊢
          obtain ⟨hpush, hnos'⟩ := push_reloaded r.storable hnos
          have hrest := ih (queue ++ [reloaded r.packet]) hnos'
          simpa [hpush] using hrest
      | some payload =>
          have hintact : intact (r :: records) = intact records := by
            simp [intact, haltered]
          rw [hintact] at hnos ⊢
          simpa using ih queue hnos

theorem load_records (records : List StoredRecord)
    (hnos : (records.map fun r ↦ r.packet.getDataNo).Nodup) (old : List Packet) :
    load (some (records.flatMap bytes)) old = (intact records).map reloaded := by
  have hkept : ((intact records).map Packet.getDataNo).Nodup := by
    have hall : ((records.map packet).map Packet.getDataNo).Nodup := by
      simpa [Function.comp_def] using hnos
    exact hall.sublist ((intact_sublist records).map _)
  have hfuel : (records.flatMap bytes).length <
      (records.flatMap bytes).length + 1 + records.length := by omega
  apply load_eq_of_loadLoop hfuel
  have hrun := loadLoop_records records [] hkept ((records.flatMap bytes).length + 1) []
  rw [List.append_nil] at hrun
  rw [hrun]
  -- the length word behind the last record is missing
  simp [loadLoop, File.fread]

end StoredRecord

/-- Whatever the file holds, `Load` ends with frames that are pieces of it and have
distinct numbers; and damage to the payloads of a saved queue costs the damaged
packets and no other. -/
theorem load_robust :
    (∀ (bytes : List Byte) (old : List Packet),
      (∀ fuel, bytes.length < fuel →
        loadLoop fuel ⟨bytes, false⟩ [] = some (load (some bytes) old)) ∧
      (∀ p ∈ load (some bytes) old, isFrameCRCOK p.strCache = true ∧ 9 ≤ p.getSize ∧
        p.getSize ≤ 4999 ∧ p.strCache <:+: bytes) ∧
      (load (some bytes) old).Pairwise fun p q ↦ p.getDataNo ≠ q.getDataNo) ∧
    ∀ (records : List StoredRecord) (old : List Packet),
      (records.map fun r ↦ r.packet.getDataNo).Nodup →
      (load (some (records.flatMap StoredRecord.bytes)) old).map Packet.strCache =
        (StoredRecord.intact records).map Packet.strCache := by
  constructor
  · intro bytes old
    have hwf : (∀ p ∈ load (some bytes) old, Storable p) ∧
        ((load (some bytes) old).map Packet.getDataNo).Nodup := load_wellFormed (some bytes)
    refine ⟨fun fuel hfuel ↦ load_eq_loadLoop bytes old hfuel, fun p hp ↦ ?_,
      List.pairwise_map.mp hwf.2⟩
    obtain ⟨hok, hsize⟩ := hwf.1 p hp
    exact ⟨hok, length_ge_of_isFrameCRCOK hok, by omega, load_pieces bytes old p hp⟩
  · intro records old hnos
    rw [StoredRecord.load_records records hnos old, List.map_map]
    rfl

/-- Two frames are saved, and the payload of the first is overwritten with zeros. -/
def overwritten : List StoredRecord :=
  [⟨sampleFrame 1, by decide, some (List.replicate 13 0x00#8), by
      rintro payload ⟨⟩
      decide⟩,
    ⟨sampleFrame 2, by decide, none, by rintro payload ⟨⟩⟩]

theorem load_robust_overwritten :
    (load (some (overwritten.flatMap StoredRecord.bytes)) []).map Packet.strCache =
      [(sampleFrame 2).strCache] :=
  load_robust.2 overwritten [] (by decide)

/-! ## Received frames

The receiver checks the length of its buffer only when an end byte has come and the
check has failed, so a frame it returns may have any length.
-/

theorem load_save_iff {q : List Packet} (hq : ∀ p ∈ q, isFrameCRCOK p.strCache = true)
    (hnos : (q.map Packet.getDataNo).Nodup) (old : List Packet) :
    (load (some (save q)) old).map Packet.strCache = q.map Packet.strCache ↔
      ∀ p ∈ q, p.getSize < 5000 := by
  constructor
  · intro hsame p hp
    have hmem : p.strCache ∈ (load (some (save q)) old).map Packet.strCache := by
      rw [hsame]
      exact List.mem_map_of_mem hp
    obtain ⟨p', hp', hbytes⟩ := List.mem_map.mp hmem
    have hwf : ∀ p ∈ load (some (save q)) old, Storable p := (load_wellFormed (some (save q))).1
    have hsize := (hwf p' hp').2
    rw [Packet.getSize, hbytes] at hsize
    exact hsize
  · intro hsize
    rw [load_save (fun p hp ↦ ⟨hq p hp, hsize p hp⟩) hnos old, List.map_map]
    rfl

end DataPacketQueue

/-- A call of `ReceiveFrameFrom`: the packet it is made on, the bytes of the stream,
and the reads behind the one that returns zero. -/
structure Reception where
  object : Packet
  stream : List Byte
  later : List ReadResult

namespace Reception

open Packet DataPacketQueue

def packet (r : Reception) : Packet :=
  (r.object.receiveFrameFrom (r.stream.map byte ++ zero :: r.later)).packet

/-- The queue behind a `Push` of each packet received. -/
def queued (rs : List Reception) : List Packet := (rs.map packet).foldl push []

/-! ### Places in the stream -/

/-- How many of the first `n` bytes are given up.  An end byte that stands 4056 places or
more behind the first byte not given up gives up the bytes before the next start byte, or
everything up to itself. -/
def shed (bs : List Byte) : ℕ → ℕ
  | 0 => 0
  | n + 1 =>
      if bs[n]? = some EOT ∧ shed bs n + 4056 ≤ n then
        shed bs n + 1 + (((bs.take (n + 1)).drop (shed bs n + 1)).takeWhile (· != SOH)).length
      else shed bs n

/-- An end byte stands at this place, and what has not been given up before it is with it a
frame. -/
def Completes (bs : List Byte) (n : ℕ) : Prop :=
  bs[n]? = some EOT ∧ isFrameCRCOK ((bs.take (n + 1)).drop (shed bs n)) = true

/-- From the first start byte on, the first place that completes a frame stands 4999 places
or more behind the first byte not given up; or there is none, and from a later start byte on
the stream is a frame of 5000 bytes or more. -/
def Oversized (stream : List Byte) : Prop :=
  (∃ n, Completes (stored stream) n ∧ (∀ k < n, ¬ Completes (stored stream) k) ∧
      shed (stored stream) n + 4999 ≤ n) ∨
    ((∀ n, ¬ Completes (stored stream) n) ∧
      ∃ t, t <:+ (stored stream).drop (shed (stored stream) (stored stream).length + 1) ∧
        t.head? = some SOH ∧ isFrameCRCOK t = true ∧ 5000 ≤ t.length)

theorem take_succ_of_getElem? {bs : List Byte} {n : ℕ} {b : Byte} (h : bs[n]? = some b) :
    bs.take (n + 1) = bs.take n ++ [b] := by
  rw [List.take_add_one, h, Option.toList_some]

theorem shed_le (bs : List Byte) (n : ℕ) : shed bs n ≤ n := by
  induction n with
  | zero => exact le_rfl
  | succ n ih =>
      rw [shed]
      split
      · have hlen := (List.takeWhile_sublist (fun b ↦ b != SOH)
          (l := (bs.take (n + 1)).drop (shed bs n + 1))).length_le
        rw [List.length_drop, List.length_take] at hlen
        omega
      · omega

theorem piece_concat {bs : List Byte} {n : ℕ} {b : Byte} (h : bs[n]? = some b) :
    (bs.take n).drop (shed bs n) ++ [b] = (bs.take (n + 1)).drop (shed bs n) := by
  have hlt : n < bs.length := (List.getElem?_eq_some_iff.mp h).1
  rw [take_succ_of_getElem? h, List.drop_append_of_le_length]
  rw [List.length_take, Nat.min_eq_left hlt.le]
  exact shed_le bs n

/-- What a slip leaves is what is not given up. -/
theorem kept_piece {bs : List Byte} {n : ℕ} (hend : bs[n]? = some EOT)
    (hbad : isFrameCRCOK ((bs.take (n + 1)).drop (shed bs n)) = false) :
    kept ((bs.take (n + 1)).drop (shed bs n)) = (bs.take (n + 1)).drop (shed bs (n + 1)) := by
  have hlt : n < bs.length := (List.getElem?_eq_some_iff.mp hend).1
  have hlen : ((bs.take (n + 1)).drop (shed bs n)).length = n + 1 - shed bs n := by
    rw [List.length_drop, List.length_take, Nat.min_eq_left hlt]
  have hlong : 4056 < n + 1 - shed bs n ↔ shed bs n + 4056 ≤ n := by
    have := shed_le bs n
    omega
  by_cases hover : shed bs n + 4056 ≤ n
  · have hnext : ∀ l : List Byte,
        l.dropWhile (· != SOH) = l.drop (l.takeWhile (· != SOH)).length := by
      intro l
      have hsplit := List.takeWhile_append_dropWhile (p := (· != SOH)) (l := l)
      calc l.dropWhile (· != SOH)
          = (l.takeWhile (· != SOH) ++ l.dropWhile (· != SOH)).drop
              (l.takeWhile (· != SOH)).length := List.drop_left.symm
        _ = l.drop (l.takeWhile (· != SOH)).length := by rw [hsplit]
    rw [kept, if_pos ⟨hbad, hlen ▸ hlong.mpr hover⟩, shed, if_pos ⟨hend, hover⟩, List.drop_drop,
      hnext, List.drop_drop]
  · rw [kept, if_neg fun h ↦ hover (hlong.mp (hlen ▸ h.2)), shed, if_neg fun h ↦ hover h.2]

/-- As long as no place completes a frame, the buffer holds what is not given up. -/
theorem held_take (bs : List Byte) {n : ℕ} (hn : n ≤ bs.length)
    (hnone : ∀ k < n, ¬ Completes bs k) :
    held [] (bs.take n) = some ((bs.take n).drop (shed bs n)) := by
  induction n with
  | zero => rfl
  | succ n ih =>
      obtain ⟨b, hb⟩ : ∃ b, bs[n]? = some b := ⟨bs[n], List.getElem?_eq_getElem hn⟩
      rw [take_succ_of_getElem? hb, held_append,
        ih (by omega) fun k hk ↦ hnone k (by omega), Option.bind_some, held,
        piece_concat hb]
      split_ifs with heot hok
      · exact absurd ⟨heot ▸ hb, hok⟩ (hnone n n.lt_succ_self)
      · rw [held, kept_piece (heot ▸ hb) (by simpa using hok), ← take_succ_of_getElem? hb]
      · have hsame : shed bs (n + 1) = shed bs n := by
          rw [shed, if_neg]
          rintro ⟨hend, -⟩
          exact heot (Option.some.inj (hb.symm.trans hend))
        rw [held, hsame, ← take_succ_of_getElem? hb]

/-- The first place that completes a frame is where one is accepted. -/
theorem inLine_of_completes {bs : List Byte} {n : ℕ} (h : Completes bs n)
    (hfirst : ∀ k < n, ¬ Completes bs k) :
    InLine [] bs ((bs.take (n + 1)).drop (shed bs n)) := by
  obtain ⟨hend, hok⟩ := h
  have hlt : n < bs.length := (List.getElem?_eq_some_iff.mp hend).1
  refine ⟨bs.take n, (bs.take n).drop (shed bs n), ?_, held_take bs hlt.le hfirst, ?_,
    (piece_concat hend).symm⟩
  · rw [← take_succ_of_getElem? hend]
    exact List.take_prefix _ _
  · rw [piece_concat hend]
    exact hok

theorem candidate_iff {w t : List Byte} :
    Candidate w t ↔ t <:+ w.drop 1 ∧ t.head? = some SOH ∧ isFrameCRCOK t = true := by
  constructor
  · rintro ⟨hsuffix, hne, hhead, hok⟩
    cases w with
    | nil => exact ⟨hsuffix, hhead, hok⟩
    | cons b w => exact ⟨(List.suffix_cons_iff.mp hsuffix).resolve_left hne, hhead, hok⟩
  · rintro ⟨hsuffix, hhead, hok⟩
    refine ⟨hsuffix.trans (List.drop_suffix 1 w), ?_, hhead, hok⟩
    rintro rfl
    have hlen := hsuffix.length_le
    have hpos := List.length_pos_iff.mpr (ne_nil_of_isFrameCRCOK hok)
    rw [List.length_drop] at hlen
    omega

theorem packet_of_silence {r : Reception} (h : stored r.stream = []) : r.packet.strCache = [] := by
  have hnoise : SOH ∉ r.stream := by
    intro hmem
    have hnone := List.dropWhile_eq_nil_iff.mp h SOH hmem
    exact absurd hnone (by decide)
  rw [packet, receiveFrameFrom, scanFrame_noise _ _ hnoise]
  rfl

/-- Without such a place the search goes through what is not given up at the end. -/
theorem packet_of_search {r : Reception} (hnone : ∀ n, ¬ Completes (stored r.stream) n) :
    ∃ q : Packet, q.strCache =
        (stored r.stream).drop (shed (stored r.stream) (stored r.stream).length) ∧
      r.packet.strCache = q.resync.strCache := by
  have hheld := held_take (stored r.stream) le_rfl fun k _ ↦ hnone k
  rw [List.take_length] at hheld
  by_cases hstored : stored r.stream = []
  · refine ⟨⟨[], []⟩, by rw [hstored]; rfl, ?_⟩
    rw [packet_of_silence hstored]
    rfl
  · rcases receiveFrameFrom_held r.object hstored r.later with hline | ⟨q, hq, hpacket⟩
    · rw [hline.held_eq_none] at hheld
      cases hheld
    · exact ⟨q, Option.some.inj (hq.symm.trans hheld), congrArg strCache hpacket⟩

theorem getSize_of_completes (r : Reception) {n : ℕ} (hn : Completes (stored r.stream) n)
    (hfirst : ∀ k < n, ¬ Completes (stored r.stream) k) :
    r.packet.getSize = n + 1 - shed (stored r.stream) n := by
  have hlt : n < (stored r.stream).length := (List.getElem?_eq_some_iff.mp hn.1).1
  have hpacket := receiveFrameFrom_inLine r.object (inLine_of_completes hn hfirst) r.later
  have hlen := congrArg List.length hpacket
  rw [List.length_drop, List.length_take, Nat.min_eq_left hlt] at hlen
  exact hlen

/-- Without an end byte that completes a frame the longest frame at the end is found. -/
theorem getSize_of_search (r : Reception) (hnone : ∀ n, ¬ Completes (stored r.stream) n) :
    5000 ≤ r.packet.getSize ↔
      ∃ t, t <:+ (stored r.stream).drop (shed (stored r.stream) (stored r.stream).length + 1) ∧
        t.head? = some SOH ∧ isFrameCRCOK t = true ∧ 5000 ≤ t.length := by
  obtain ⟨q, hq, hpacket⟩ := packet_of_search hnone
  have hsize : r.packet.getSize = q.resync.strCache.length := congrArg List.length hpacket
  have hcand : ∀ t, Candidate q.strCache t ↔
      t <:+ (stored r.stream).drop (shed (stored r.stream) (stored r.stream).length + 1) ∧
        t.head? = some SOH ∧ isFrameCRCOK t = true := by
    intro t
    rw [candidate_iff, hq, List.drop_drop]
  rw [hsize]
  constructor
  · intro hlong
    rcases resync_longest q with ⟨hfound, -⟩ | ⟨hempty, -⟩
    · obtain ⟨hsuffix, hhead, hok⟩ := (hcand _).mp hfound
      exact ⟨_, hsuffix, hhead, hok, hlong⟩
    · simp [hempty] at hlong
  · rintro ⟨t, hsuffix, hhead, hok, hlong⟩
    have hfound := (hcand t).mpr ⟨hsuffix, hhead, hok⟩
    rcases resync_longest q with ⟨-, hmax⟩ | ⟨-, hempty⟩
    · exact hlong.trans (hmax t hfound)
    · exact absurd hfound (hempty t)

theorem oversized_iff (r : Reception) : 5000 ≤ r.packet.getSize ↔ Oversized r.stream := by
  by_cases hsome : ∃ n, Completes (stored r.stream) n
  · classical
    obtain ⟨hfound, hfirst⟩ : Completes (stored r.stream) (Nat.find hsome) ∧
        ∀ k < Nat.find hsome, ¬ Completes (stored r.stream) k :=
      ⟨Nat.find_spec hsome, fun k ↦ Nat.find_min hsome⟩
    have hle := shed_le (stored r.stream) (Nat.find hsome)
    constructor
    · intro hlong
      rw [getSize_of_completes r hfound hfirst] at hlong
      exact Or.inl ⟨Nat.find hsome, hfound, hfirst, by omega⟩
    · rintro (⟨m, hm, hmfirst, hlong⟩ | ⟨hnone, -⟩)
      · rw [getSize_of_completes r hm hmfirst]
        omega
      · exact absurd hfound (hnone _)
  · have hnone : ∀ n, ¬ Completes (stored r.stream) n := fun n hn ↦ hsome ⟨n, hn⟩
    rw [getSize_of_search r hnone]
    constructor
    · exact fun hlong ↦ Or.inr ⟨hnone, hlong⟩
    · rintro (⟨n, hn, -⟩ | ⟨-, hlong⟩)
      · exact absurd hn (hnone n)
      · exact hlong

theorem packet_frame (r : Reception) :
    r.packet.strCache = [] ∨ isFrameCRCOK r.packet.strCache = true := by
  obtain ⟨consumed, unread, -, hdel⟩ := receiveFrameFrom_sound r.object r.stream r.later
  exact hdel.packet.imp_right And.left

/-- What is queued was received, is a frame, and has a number of its own. -/
theorem queued_sound (rs : List Reception) :
    (∀ p ∈ queued rs, isFrameCRCOK p.strCache = true ∧ ∃ r ∈ rs, p = r.packet) ∧
      ((queued rs).map getDataNo).Nodup := by
  induction rs using List.reverseRecOn with
  | nil => simp [queued]
  | append_singleton rs r ih =>
      have hlast : queued (rs ++ [r]) = push (queued rs) r.packet := by
        simp [queued, List.foldl_append]
      rw [hlast]
      refine ⟨fun p hp ↦ ?_, push_nodup _ ih.2⟩
      rcases push_cases (queued rs) r.packet with heq | ⟨heq, hsize, -⟩
      · obtain ⟨hok, r', hr', hp'⟩ := ih.1 p (heq ▸ hp)
        exact ⟨hok, r', List.mem_append_left [r] hr', hp'⟩
      · rw [heq] at hp
        rcases List.mem_append.mp hp with hold | hnew
        · obtain ⟨hok, r', hr', hp'⟩ := ih.1 p hold
          exact ⟨hok, r', List.mem_append_left [r] hr', hp'⟩
        · obtain rfl := List.mem_singleton.mp hnew
          have hne : r.packet.strCache ≠ [] := fun hnil ↦ hsize (congrArg List.length hnil)
          exact ⟨r.packet_frame.resolve_left hne, r, by simp, rfl⟩

/-- The frames received are short enough for the file, and the file restores the queue
they were pushed to, exactly if no stream is oversized. -/
theorem received_frames_survive_iff (rs : List Reception) (old : List Packet) :
    ((∀ r ∈ rs, r.packet.getSize < 5000) ∧
        (load (some (save (queued rs))) old).map strCache = (queued rs).map strCache) ↔
      ∀ r ∈ rs, ¬ Oversized r.stream := by
  obtain ⟨hqueued, hnos⟩ := queued_sound rs
  rw [load_save_iff (fun p hp ↦ (hqueued p hp).1) hnos old]
  constructor
  · rintro ⟨hshort, -⟩ r hr hover
    have hlong := (oversized_iff r).mpr hover
    have := hshort r hr
    omega
  · intro hnone
    have hshort : ∀ r ∈ rs, r.packet.getSize < 5000 := by
      intro r hr
      by_contra hlong
      exact hnone r hr ((oversized_iff r).mp (Nat.le_of_not_lt hlong))
    refine ⟨hshort, fun p hp ↦ ?_⟩
    obtain ⟨-, r, hr, rfl⟩ := hqueued p hp
    exact hshort r hr

/-! ## A frame that does not survive -/

/-- A measurement with this many zeros in it.  Two of its bytes clear the checksum
register and zeros keep it clear, up to the trailer. -/
def longFrame (zeros : ℕ) : List Byte :=
  SOH :: 0x01#8 :: STX :: ([0x72#8, 0x61#8, 0x43#8, 0x41#8] ++ List.replicate zeros 0x00#8 ++
    [ETX] ++ [0x32#8, 0x9b#8, EOT])

theorem length_longFrame (zeros : ℕ) : (longFrame zeros).length = zeros + 11 := by
  simp [longFrame]

theorem longFrame_ok (zeros : ℕ) : isFrameCRCOK (longFrame zeros) = true := by
  have hclear : crc16 (~~~0#16) [0x72#8, 0x61#8, 0x43#8, 0x41#8] = 0#16 := by decide
  have hetx : crc16 0#16 [ETX] = 0x32#8 ++ 0x9b#8 := by decide
  rw [longFrame, isFrameCRCOK_parts]
  refine ⟨?_, rfl, ?_, ?_⟩
  · simp
  · exact List.getLast?_concat
  · rw [crc16_append, crc16_append, hclear, crc16_zeros, hetx]

/-- The receiver takes it, whatever its length. -/
theorem longFrame_received (zeros : ℕ) (object : Packet) (later : List ReadResult) :
    (packet ⟨object, longFrame zeros, later⟩).strCache = longFrame zeros := by
  let front := SOH :: 0x01#8 :: STX :: ([0x72#8, 0x61#8, 0x43#8, 0x41#8] ++
    List.replicate zeros 0x00#8 ++ [ETX] ++ [0x32#8, 0x9b#8])
  have hfront : longFrame zeros = front ++ [EOT] := by simp [front, longFrame]
  have hquiet : EOT ∉ front := by
    simp [front, List.mem_replicate, SOH, STX, ETX, EOT]
  have hstored : stored (longFrame zeros) = longFrame zeros := by
    simp [stored, longFrame]
  apply receiveFrameFrom_inLine
  rw [hstored, hfront]
  exact inLine_quiet hquiet (hfront ▸ longFrame_ok zeros)

theorem longFrame_getDataNo {p : Packet} {zeros : ℕ} (hp : p.strCache = longFrame (zeros + 2)) :
    p.getDataNo = 0#16 := by
  have hlong : 9 ≤ (Packet.mk (longFrame (zeros + 2)) []).strCache.length := by
    change 9 ≤ (longFrame (zeros + 2)).length
    rw [length_longFrame]
    omega
  rw [getDataNo_congr (q := ⟨longFrame (zeros + 2), []⟩) hp hlong]
  simp [getDataNo, getSize, longFrame, wordAt, byteAt, storage, List.replicate_succ]

end Reception

namespace DataPacketQueue

open Reception

/-- A length word out of range is passed over, and what follows it is the next. -/
theorem loadLoop_skip {word : List Byte} (hlen : word.length = 4)
    (hout : ¬ (0 < readInt word ∧ readInt word < 5000)) (fuel : ℕ) (rest : List Byte)
    (queue : List Packet) :
    loadLoop (fuel + 1) ⟨word ++ rest, false⟩ queue = loadLoop fuel ⟨rest, false⟩ queue := by
  simp only [loadLoop, fread_append hlen, hout, Bool.false_eq_true, if_false]

theorem loadLoop_zeros (k fuel : ℕ) (rest : List Byte) (queue : List Packet) :
    loadLoop (fuel + k) ⟨List.replicate (4 * k) 0x00#8 ++ rest, false⟩ queue =
      loadLoop fuel ⟨rest, false⟩ queue := by
  induction k with
  | zero => simp
  | succ k ih =>
      have hsplit : List.replicate (4 * (k + 1)) 0x00#8 ++ rest =
          List.replicate 4 0x00#8 ++ (List.replicate (4 * k) 0x00#8 ++ rest) := by
        rw [← List.append_assoc, List.replicate_append_replicate]
        congr 2
        omega
      rw [hsplit, ← Nat.add_assoc, loadLoop_skip (by simp) (by decide)]
      exact ih

end DataPacketQueue

namespace Reception

open Packet DataPacketQueue

/-- A long measurement is received, and then one of 13 bytes. -/
def longAndShort (k : ℕ) : List Reception :=
  [⟨⟨[], []⟩, longFrame (4 * k + 2), []⟩, ⟨⟨[], []⟩, (sampleFrame 1).strCache, []⟩]

theorem longAndShort_queued (k : ℕ) :
    (queued (longAndShort k)).map strCache =
      [longFrame (4 * k + 2), (sampleFrame 1).strCache] := by
  have hlong := longFrame_received (4 * k + 2) ⟨[], []⟩ []
  have hshort : (packet ⟨⟨[], []⟩, (sampleFrame 1).strCache, []⟩).strCache =
      (sampleFrame 1).strCache := by decide
  have hno : (packet ⟨⟨[], []⟩, (sampleFrame 1).strCache, []⟩).getDataNo = 1#16 := by
    decide
  have hfirst : push [] (packet ⟨⟨[], []⟩, longFrame (4 * k + 2), []⟩) =
      [packet ⟨⟨[], []⟩, longFrame (4 * k + 2), []⟩] := by
    apply push_of_fresh
    · rw [getSize, hlong, length_longFrame]
      omega
    · simp
  have hsecond : push [packet ⟨⟨[], []⟩, longFrame (4 * k + 2), []⟩]
      (packet ⟨⟨[], []⟩, (sampleFrame 1).strCache, []⟩) =
      [packet ⟨⟨[], []⟩, longFrame (4 * k + 2), []⟩,
        packet ⟨⟨[], []⟩, (sampleFrame 1).strCache, []⟩] := by
    apply push_of_fresh
    · rw [getSize, hshort]
      decide
    · intro it hit
      rw [List.mem_singleton.mp hit, hno, longFrame_getDataNo hlong]
      decide
  simp only [queued, longAndShort, List.map_cons, List.map_nil, List.foldl_cons, List.foldl_nil,
    hfirst, hsecond, hlong, hshort]

theorem save_eq_contents (q : List Packet) :
    save q = (q.map strCache).flatMap fun s ↦ record ⟨s, []⟩ := by
  rw [save, List.flatMap_map]
  rfl

/-- The file with the two frames, cut as `Load` cuts it behind the first length. -/
theorem longAndShort_file (k : ℕ) :
    save (queued (longAndShort k)) = writeInt (BitVec.ofNat 32 (4 * k + 13)) ++
      ([SOH, 0x01#8, STX, 0x72#8] ++ ([0x61#8, 0x43#8, 0x41#8, 0x00#8] ++
        (List.replicate (4 * k) 0x00#8 ++ ([0x00#8, ETX, 0x32#8, 0x9b#8] ++
          ([EOT, 0x0d#8, 0x00#8, 0x00#8] ++ 0x00#8 :: (sampleFrame 1).strCache))))) := by
  have hzeros : List.replicate (4 * k + 2) 0x00#8 =
      0x00#8 :: (List.replicate (4 * k) 0x00#8 ++ [0x00#8]) := by
    rw [List.replicate_succ, List.replicate_succ']
  have hlong : record ⟨longFrame (4 * k + 2), []⟩ =
      writeInt (BitVec.ofNat 32 (4 * k + 13)) ++ longFrame (4 * k + 2) := by
    have hsize : getSize ⟨longFrame (4 * k + 2), []⟩ = 4 * k + 13 := length_longFrame _
    rw [record, hsize, if_neg (by omega)]
  have hshort : record ⟨(sampleFrame 1).strCache, []⟩ =
      [0x0d#8, 0x00#8, 0x00#8, 0x00#8] ++ (sampleFrame 1).strCache := by decide
  rw [save_eq_contents, longAndShort_queued, List.flatMap_cons, List.flatMap_cons,
    List.flatMap_nil, hlong, hshort, longFrame, hzeros]
  simp

theorem load_longAndShort {k : ℕ} (hlong : 5000 ≤ 4 * k + 13) (hint : 4 * k + 13 < 2 ^ 31) :
    load (some (save (queued (longAndShort k)))) [] = [] := by
  have hout : ¬ (0 < readInt (writeInt (BitVec.ofNat 32 (4 * k + 13))) ∧
      readInt (writeInt (BitVec.ofNat 32 (4 * k + 13))) < 5000) := by
    rw [readInt_writeInt, BitVec.toInt_eq_toNat_of_lt] <;>
      rw [BitVec.toNat_ofNat, Nat.mod_eq_of_lt (by omega)] <;> omega
  have hrun : ∀ fuel, loadLoop (fuel + 2 + 1 + k + 1 + 1 + 1)
      ⟨save (queued (longAndShort k)), false⟩ [] = some [] := by
    intro fuel
    rw [longAndShort_file, loadLoop_skip rfl hout, loadLoop_skip rfl (by decide),
      loadLoop_skip rfl (by decide), loadLoop_zeros, loadLoop_skip rfl (by decide)]
    -- the last byte of the long frame is read as the first of a length
    exact loadLoop_short rfl (by decide) (by decide) fuel []
  refine load_eq_of_loadLoop ?_ (hrun (save (queued (longAndShort k))).length) []
  omega

/-- The longer frame, of 5001 bytes, is received and queued, and `Load` restores
neither frame. -/
theorem long_frame_lost :
    (queued (longAndShort 1247)).map strCache =
        [longFrame (4 * 1247 + 2), (sampleFrame 1).strCache] ∧
      (longFrame (4 * 1247 + 2)).length = 5001 ∧
      load (some (save (queued (longAndShort 1247)))) [] = [] := by
  refine ⟨longAndShort_queued 1247, ?_, load_longAndShort (by norm_num) (by norm_num)⟩
  rw [length_longFrame]

end Reception

end DeviceAgent
