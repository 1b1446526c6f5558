import DeviceAgent.Packet
import DeviceAgent.Foundations.Records

/-!
# The packet queue and its file

`Push` refuses an empty packet and one whose data number is already queued.
`Save` writes each packet behind its length, a four-byte `int` of a
little-endian host; `Load` replaces the queue by what the file holds, one
record after the other through the frame check and `Push`.
-/

namespace DeviceAgent

namespace DataPacketQueue

def push (queue : List Packet) (data : Packet) : List Packet :=
  if data.getSize = 0 then queue
  else if queue.any (fun it ↦ it.getDataNo == data.getDataNo) then queue
  else queue ++ [data]

def pop (queue : List Packet) : List Packet := queue.tail

theorem push_of_fresh {queue : List Packet} {data : Packet} (hsize : data.getSize ≠ 0)
    (hfresh : ∀ it ∈ queue, it.getDataNo ≠ data.getDataNo) :
    push queue data = queue ++ [data] := by
  have hany : queue.any (fun it ↦ it.getDataNo == data.getDataNo) = false := by
    simpa using hfresh
  simp [push, hsize, hany]

theorem push_of_known {queue : List Packet} {data : Packet}
    (hknown : ∃ it ∈ queue, it.getDataNo = data.getDataNo) : push queue data = queue := by
  have hany : queue.any (fun it ↦ it.getDataNo == data.getDataNo) = true := by
    simpa using hknown
  simp [push, hany]

theorem push_cases (queue : List Packet) (data : Packet) :
    push queue data = queue ∨
      (push queue data = queue ++ [data] ∧ data.getSize ≠ 0 ∧
        ∀ it ∈ queue, it.getDataNo ≠ data.getDataNo) := by
  by_cases hsize : data.getSize = 0
  · left
    simp [push, hsize]
  · by_cases hknown : ∃ it ∈ queue, it.getDataNo = data.getDataNo
    · exact Or.inl (push_of_known hknown)
    · push Not at hknown
      exact Or.inr ⟨push_of_fresh hsize hknown, hsize, hknown⟩

theorem mem_of_mem_push {queue : List Packet} {data p : Packet} (hp : p ∈ push queue data) :
    p ∈ queue ∨ p = data := by
  rcases push_cases queue data with heq | ⟨heq, -, -⟩
  · exact Or.inl (heq ▸ hp)
  · simpa [heq] using hp

theorem push_nodup {queue : List Packet} (data : Packet)
    (hq : (queue.map Packet.getDataNo).Nodup) :
    ((push queue data).map Packet.getDataNo).Nodup := by
  rcases push_cases queue data with heq | ⟨heq, -, hfresh⟩
  · rw [heq]
    exact hq
  · rw [heq, List.map_append, List.nodup_append]
    refine ⟨hq, by simp, ?_⟩
    intro no hno no' hno'
    obtain ⟨it, hit, rfl⟩ := List.mem_map.mp hno
    rw [List.map_singleton, List.mem_singleton] at hno'
    rw [hno']
    exact hfresh it hit

/-! ## Saving -/

def writeInt (n : BitVec 32) : List Byte :=
  [n.extractLsb' 0 8, n.extractLsb' 8 8, n.extractLsb' 16 8, n.extractLsb' 24 8]

def readInt : List Byte → ℤ
  | [b₀, b₁, b₂, b₃] => (b₃ ++ b₂ ++ b₁ ++ b₀ : BitVec 32).toInt
  | _ => 0

def record (p : Packet) : List Byte :=
  if p.getSize = 0 then [] else writeInt (BitVec.ofNat 32 p.getSize) ++ p.strCache

def save (queue : List Packet) : List Byte := queue.flatMap record

/-! ## Loading -/

/-- A `FILE*`: the bytes not yet read, and the end-of-file mark that only a
read beyond them sets. -/
structure File where
  rest : List Byte
  eof : Bool

/-- `fread(buf, n, 1, fd)`. -/
def File.fread (f : File) (n : ℕ) : Option (List Byte) × File :=
  if n ≤ f.rest.length then (some (f.rest.take n), ⟨f.rest.drop n, f.eof⟩)
  else (none, ⟨[], true⟩)

/-- The loop of `Load`; `fuel` bounds the number of passes, and `none` says that
it did not suffice. -/
def loadLoop : ℕ → File → List Packet → Option (List Packet)
  | 0, _, _ => none
  | fuel + 1, file, queue =>
      if file.eof then some queue
      else
        match file.fread 4 with
        | (none, _) => some queue
        | (some word, file) =>
            if 0 < readInt word ∧ readInt word < 5000 then
              match file.fread (readInt word).toNat with
              | (some buf, file) =>
                  if isFrameCRCOK buf then
                    loadLoop fuel file (push queue ((Packet.mk [] []).setPacket buf))
                  else loadLoop fuel file queue
              | (none, file) => loadLoop fuel file queue
            else loadLoop fuel file queue

/-- `Load` of a file with these contents; without a file the queue stays.  The
passes allowed here always suffice, see `loadLoop_terminates`. -/
def load (file : Option (List Byte)) (queue : List Packet) : List Packet :=
  match file with
  | none => queue
  | some bytes => (loadLoop (bytes.length + 1) ⟨bytes, false⟩ []).getD []

theorem fread_of_le {f : File} {n : ℕ} (h : n ≤ f.rest.length) :
    f.fread n = (some (f.rest.take n), ⟨f.rest.drop n, f.eof⟩) := by
  simp [File.fread, h]

theorem fread_of_lt {f : File} {n : ℕ} (h : f.rest.length < n) :
    f.fread n = (none, ⟨[], true⟩) := by
  simp [File.fread, Nat.not_le.mpr h]

theorem fread_append {buf : List Byte} {n : ℕ} (hlen : buf.length = n) (rest : List Byte) :
    File.fread ⟨buf ++ rest, false⟩ n = (some buf, ⟨rest, false⟩) := by
  rw [fread_of_le (by simp [hlen]), ← hlen, List.take_left, List.drop_left]

theorem length_of_fread {f f' : File} {n : ℕ} {buf : List Byte}
    (h : f.fread n = (some buf, f')) : buf.length = n := by
  unfold File.fread at h
  split at h
  · rename_i hle
    obtain rfl : f.rest.take n = buf := by
      simpa using congrArg Prod.fst h
    exact List.length_take_of_le hle
  · cases h

theorem isPrefix_of_fread {f f' : File} {n : ℕ} {buf : List Byte}
    (h : f.fread n = (some buf, f')) : buf <+: f.rest := by
  unfold File.fread at h
  split at h
  · obtain rfl : f.rest.take n = buf := by
      simpa using congrArg Prod.fst h
    exact List.take_prefix n f.rest
  · cases h

theorem fread_suffix {f f' : File} {n : ℕ} {buf : Option (List Byte)}
    (h : f.fread n = (buf, f')) : f'.rest <:+ f.rest := by
  obtain rfl : (f.fread n).2 = f' := congrArg Prod.snd h
  unfold File.fread
  split
  · exact List.drop_suffix n f.rest
  · exact List.nil_suffix

theorem loadLoop_of_eof (fuel : ℕ) (bytes : List Byte) (queue : List Packet) :
    loadLoop (fuel + 1) ⟨bytes, true⟩ queue = some queue := by
  simp [loadLoop]

/-- One pass of the loop either ends it, or goes on with fewer bytes, or goes on
at the end of the file, where the next pass ends it. -/
theorem loadLoop_pass (bytes : List Byte) (queue : List Packet) :
    (∀ fuel, loadLoop (fuel + 1) ⟨bytes, false⟩ queue = some queue) ∨
      (∃ rest next, rest.length < bytes.length ∧
        ∀ fuel, loadLoop (fuel + 1) ⟨bytes, false⟩ queue = loadLoop fuel ⟨rest, false⟩ next) ∨
      (bytes ≠ [] ∧
        ∀ fuel, loadLoop (fuel + 1) ⟨bytes, false⟩ queue = loadLoop fuel ⟨[], true⟩ queue) := by
  by_cases hword : 4 ≤ bytes.length
  · have hread := fread_of_le (f := ⟨bytes, false⟩) hword
    by_cases hrange : 0 < readInt (bytes.take 4) ∧ readInt (bytes.take 4) < 5000
    · by_cases hbody : (readInt (bytes.take 4)).toNat ≤ (bytes.drop 4).length
      · have hread' := fread_of_le (f := ⟨bytes.drop 4, false⟩) hbody
        have hshort : ((bytes.drop 4).drop (readInt (bytes.take 4)).toNat).length <
            bytes.length := by
          rw [List.length_drop, List.length_drop]
          omega
        by_cases hcrc : isFrameCRCOK ((bytes.drop 4).take (readInt (bytes.take 4)).toNat) = true
        · refine Or.inr (Or.inl ⟨_, push queue ((Packet.mk [] []).setPacket
            ((bytes.drop 4).take (readInt (bytes.take 4)).toNat)), hshort, fun fuel ↦ ?_⟩)
          simp only [loadLoop, hread, hrange, hread', hcrc, Bool.false_eq_true, if_false, if_true,
            and_self]
        · refine Or.inr (Or.inl ⟨_, queue, hshort, fun fuel ↦ ?_⟩)
          simp only [loadLoop, hread, hrange, hread', hcrc, Bool.false_eq_true, if_false, if_true,
            and_self]
      · have hread' := fread_of_lt (f := ⟨bytes.drop 4, false⟩) (Nat.lt_of_not_le hbody)
        refine Or.inr (Or.inr ⟨by rintro rfl; simp at hword, fun fuel ↦ ?_⟩)
        simp only [loadLoop, hread, hrange, hread', Bool.false_eq_true, if_false, if_true, and_self]
    · refine Or.inr (Or.inl ⟨bytes.drop 4, queue, ?_, fun fuel ↦ ?_⟩)
      · rw [List.length_drop]
        omega
      · simp only [loadLoop, hread, hrange, Bool.false_eq_true, if_false]
  · refine Or.inl fun fuel ↦ ?_
    simp only [loadLoop, fread_of_lt (f := ⟨bytes, false⟩) (Nat.lt_of_not_le hword),
      Bool.false_eq_true, if_false]

/-- The loop terminates on every file, after at most one pass per byte and one
more. -/
theorem loadLoop_terminates (bytes : List Byte) (queue : List Packet) :
    ∃ loaded, ∀ fuel, bytes.length < fuel → loadLoop fuel ⟨bytes, false⟩ queue = some loaded := by
  induction hn : bytes.length using Nat.strong_induction_on generalizing bytes queue with
  | _ n ih =>
      subst hn
      rcases loadLoop_pass bytes queue with hend | ⟨rest, next, hshort, hgo⟩ | ⟨hne, heof⟩
      · refine ⟨queue, fun fuel hfuel ↦ ?_⟩
        obtain ⟨fuel, rfl⟩ := Nat.exists_eq_add_one.mpr (Nat.zero_lt_of_lt hfuel)
        exact hend fuel
      · obtain ⟨loaded, hloaded⟩ := ih rest.length hshort rest next rfl
        refine ⟨loaded, fun fuel hfuel ↦ ?_⟩
        obtain ⟨fuel, rfl⟩ := Nat.exists_eq_add_one.mpr (Nat.zero_lt_of_lt hfuel)
        rw [hgo]
        exact hloaded fuel (by omega)
      · have hpos := List.length_pos_iff.mpr hne
        refine ⟨queue, fun fuel hfuel ↦ ?_⟩
        obtain ⟨fuel, rfl⟩ : ∃ k, fuel = k + 2 := ⟨fuel - 2, by omega⟩
        rw [heof]
        exact loadLoop_of_eof fuel [] queue

theorem load_eq_of_loadLoop {fuel : ℕ} {bytes : List Byte} {loaded : List Packet}
    (hfuel : bytes.length < fuel) (h : loadLoop fuel ⟨bytes, false⟩ [] = some loaded)
    (queue : List Packet) : load (some bytes) queue = loaded := by
  obtain ⟨result, hresult⟩ := loadLoop_terminates bytes []
  have heq : some result = some loaded := (hresult fuel hfuel).symm.trans h
  rw [load, hresult _ (Nat.lt_succ_self _), heq, Option.getD_some]

/-! ## What a saved queue loads to -/

/-- A payload that the file does not hold whole is not taken, and the loop ends. -/
theorem loadLoop_short {word rest : List Byte} (hlen : word.length = 4)
    (hrange : 0 < readInt word ∧ readInt word < 5000)
    (hshort : rest.length < (readInt word).toNat) (fuel : ℕ) (queue : List Packet) :
    loadLoop (fuel + 2) ⟨word ++ rest, false⟩ queue = some queue := by
  have hbody : File.fread ⟨rest, false⟩ (readInt word).toNat = (none, ⟨[], true⟩) :=
    fread_of_lt hshort
  rw [loadLoop]
  simp only [fread_append hlen, hrange, hbody, Bool.false_eq_true, if_false, if_true, and_self]
  exact loadLoop_of_eof fuel [] queue

theorem readInt_writeInt (n : BitVec 32) : readInt (writeInt n) = n.toInt := by
  have hjoin : (n.extractLsb' 24 8 ++ n.extractLsb' 16 8 ++ n.extractLsb' 8 8 ++
      n.extractLsb' 0 8 : BitVec 32) = n := by
    apply BitVec.eq_of_getLsbD_eq
    intro i hi
    simp only [BitVec.getLsbD_append, BitVec.getLsbD_extractLsb']
    interval_cases i <;> simp
  rw [writeInt, readInt, hjoin]

/-- The packets that come through the file unharmed. -/
def Storable (p : Packet) : Prop := isFrameCRCOK p.strCache = true ∧ p.getSize < 5000

instance (p : Packet) : Decidable (Storable p) := by
  unfold Storable
  infer_instance

/-- The packet that `Load` builds for a payload, in a string of its own. -/
def reloaded (p : Packet) : Packet := (Packet.mk [] []).setPacket p.strCache

@[simp] theorem reloaded_strCache (p : Packet) : (reloaded p).strCache = p.strCache := rfl

theorem reloaded_getDataNo {p : Packet} (h : Storable p) :
    (reloaded p).getDataNo = p.getDataNo :=
  Packet.getDataNo_congr (reloaded_strCache p) (length_ge_of_isFrameCRCOK h.1)

theorem record_eq {p : Packet} (h : Storable p) :
    record p = writeInt (BitVec.ofNat 32 p.getSize) ++ p.strCache := by
  have hlen := length_ge_of_isFrameCRCOK h.1
  have hne : p.getSize ≠ 0 := by
    rw [Packet.getSize]
    omega
  rw [record, if_neg hne]

theorem readInt_ofNat {n : ℕ} (h : n < 5000) : readInt (writeInt (BitVec.ofNat 32 n)) = n := by
  rw [readInt_writeInt, BitVec.toInt_eq_toNat_of_lt]
  · rw [BitVec.toNat_ofNat, Nat.mod_eq_of_lt (by omega)]
  · rw [BitVec.toNat_ofNat, Nat.mod_eq_of_lt (by omega)]
    omega

theorem readInt_size {p : Packet} (h : Storable p) :
    readInt (writeInt (BitVec.ofNat 32 p.getSize)) = p.getSize := readInt_ofNat h.2

/-- A record whose length is in range is read whole, whatever its payload. -/
theorem loadLoop_payload {n : ℕ} (hpos : 0 < n) (hmax : n < 5000) {payload : List Byte}
    (hlen : payload.length = n) (fuel : ℕ) (rest : List Byte) (queue : List Packet) :
    loadLoop (fuel + 1) ⟨writeInt (BitVec.ofNat 32 n) ++ (payload ++ rest), false⟩ queue =
      loadLoop fuel ⟨rest, false⟩
        (if isFrameCRCOK payload then push queue ((Packet.mk [] []).setPacket payload)
        else queue) := by
  have hrange : (0 : ℤ) < n ∧ (n : ℤ) < 5000 := by omega
  have hword : (writeInt (BitVec.ofNat 32 n)).length = 4 := rfl
  simp only [loadLoop, fread_append hword, readInt_ofNat hmax, hrange, Int.toNat_natCast,
    fread_append hlen, Bool.false_eq_true, if_false, if_true, and_self]
  split <;> rfl

theorem loadLoop_record {p : Packet} (h : Storable p) (fuel : ℕ) (rest : List Byte)
    (queue : List Packet) :
    loadLoop (fuel + 1) ⟨record p ++ rest, false⟩ queue =
      loadLoop fuel ⟨rest, false⟩ (push queue (reloaded p)) := by
  have hlen := length_ge_of_isFrameCRCOK h.1
  have hpos : 0 < p.getSize := by
    rw [Packet.getSize]
    omega
  rw [record_eq h, List.append_assoc, loadLoop_payload hpos h.2 rfl, if_pos h.1]
  rfl

/-- A torn record is dropped, whether the cut falls inside the length or inside
the payload. -/
theorem loadLoop_torn {q : List Packet} (hq : ∀ p ∈ q, Storable p) {rest : List Byte}
    (htorn : Records.Torn record q rest) (fuel : ℕ) (queue : List Packet) :
    loadLoop (fuel + 2) ⟨rest, false⟩ queue = some queue := by
  by_cases hword : 4 ≤ rest.length
  · cases htorn with
    | clean => simp at hword
    | inside p _ missing hp hsplit hmissing =>
        have hstore := hq p hp
        rw [record_eq hstore] at hsplit
        have hlen : (writeInt (BitVec.ofNat 32 p.getSize)).length = 4 := rfl
        -- the length is whole, so the payload is what the cut has shortened
        obtain ⟨part, rfl⟩ : ∃ part, rest = writeInt (BitVec.ofNat 32 p.getSize) ++ part := by
          refine ⟨rest.drop 4, ?_⟩
          have htake := congrArg (List.take 4) hsplit
          rw [← hlen, List.take_left, hlen, List.take_append_of_le_length hword] at htake
          rw [htake, List.take_append_drop]
        have hshort : part.length < p.getSize := by
          have hmiss := List.length_pos_iff.mpr hmissing
          have htotal := congrArg List.length hsplit
          simp only [List.length_append] at htotal
          rw [Packet.getSize]
          omega
        have hsize := readInt_size hstore
        have hrange : 0 < readInt (writeInt (BitVec.ofNat 32 p.getSize)) ∧
            readInt (writeInt (BitVec.ofNat 32 p.getSize)) < 5000 := by
          have := hstore.2
          omega
        exact loadLoop_short hlen hrange (by omega) fuel queue
  · rw [loadLoop]
    simp only [fread_of_lt (f := ⟨rest, false⟩) (Nat.lt_of_not_le hword), Bool.false_eq_true,
      if_false]

/-- The packet of the next record is appended, since no other has its number. -/
theorem push_reloaded {queue q : List Packet} {p : Packet} (hp : Storable p)
    (hnos : ((queue ++ p :: q).map Packet.getDataNo).Nodup) :
    push queue (reloaded p) = queue ++ [reloaded p] ∧
      ((queue ++ [reloaded p] ++ q).map Packet.getDataNo).Nodup := by
  constructor
  · apply push_of_fresh
    · have hlen := length_ge_of_isFrameCRCOK hp.1
      rw [Packet.getSize, reloaded_strCache]
      omega
    · intro it hit
      rw [reloaded_getDataNo hp]
      rw [List.map_append, List.nodup_append] at hnos
      exact hnos.2.2 _ (List.mem_map_of_mem hit) _ (by simp)
  · simpa [reloaded_getDataNo hp] using hnos

theorem loadLoop_save {q : List Packet} (hq : ∀ p ∈ q, Storable p) (queue : List Packet)
    (hnos : ((queue ++ q).map Packet.getDataNo).Nodup) (fuel : ℕ) (rest : List Byte) :
    loadLoop (fuel + q.length) ⟨save q ++ rest, false⟩ queue =
      loadLoop fuel ⟨rest, false⟩ (queue ++ q.map reloaded) := by
  induction q generalizing queue with
  | nil => simp [save]
  | cons p q ih =>
      have hp := hq p (by simp)
      obtain ⟨hpush, hnos'⟩ := push_reloaded hp hnos
      calc loadLoop (fuel + (p :: q).length) ⟨save (p :: q) ++ rest, false⟩ queue
          = loadLoop (fuel + q.length + 1) ⟨record p ++ (save q ++ rest), false⟩ queue := by
            rw [save, List.flatMap_cons, List.append_assoc, List.length_cons, ← Nat.add_assoc]
            rfl
        _ = loadLoop (fuel + q.length) ⟨save q ++ rest, false⟩ (queue ++ [reloaded p]) := by
            rw [loadLoop_record hp, hpush]
        _ = loadLoop fuel ⟨rest, false⟩ (queue ++ (p :: q).map reloaded) := by
            rw [ih (fun p hp ↦ hq p (List.mem_cons_of_mem _ hp)) _ hnos', List.map_cons,
              List.append_assoc, List.singleton_append]

theorem loadLoop_take_save {q : List Packet} (hq : ∀ p ∈ q, Storable p)
    (hnos : (q.map Packet.getDataNo).Nodup) (k fuel : ℕ)
    (hfuel : ((save q).take k).length < fuel) :
    loadLoop fuel ⟨(save q).take k, false⟩ [] =
      some ((q.take (Records.wholeWithin record q k)).map reloaded) := by
  obtain ⟨rest, htorn, hcut⟩ := Records.take_flatMap record q k
  obtain ⟨loaded, hloaded⟩ := loadLoop_terminates ((save q).take k) []
  have hsub : (q.take (Records.wholeWithin record q k)).Sublist q := List.take_sublist _ q
  have hrun : loadLoop (((save q).take k).length + 2 +
      (q.take (Records.wholeWithin record q k)).length) ⟨(save q).take k, false⟩ [] =
      some ((q.take (Records.wholeWithin record q k)).map reloaded) := by
    have hbytes : (save q).take k = save (q.take (Records.wholeWithin record q k)) ++ rest := hcut
    rw [hbytes, loadLoop_save (fun p hp ↦ hq p (hsub.subset hp)) [] (hnos.sublist (hsub.map _))]
    exact loadLoop_torn hq htorn _ _
  have hlong := hloaded (((save q).take k).length + 2 +
    (q.take (Records.wholeWithin record q k)).length) (by omega)
  exact (hloaded fuel hfuel).trans (hlong.symm.trans hrun)

theorem load_save {q : List Packet} (hq : ∀ p ∈ q, Storable p)
    (hnos : (q.map Packet.getDataNo).Nodup) (queue : List Packet) :
    load (some (save q)) queue = q.map reloaded := by
  have hfuel : (save q).length < (save q).length + q.length + 2 := by omega
  refine load_eq_of_loadLoop hfuel ?_ queue
  have hsplit : (save q).length + q.length + 2 = (save q).length + 2 + q.length := by omega
  have hrun := loadLoop_save hq [] (by simpa using hnos) ((save q).length + 2) []
  rw [List.append_nil] at hrun
  rw [hsplit, hrun]
  exact loadLoop_torn hq .clean _ _

/-- What holds of the queue before the loop and is kept by each payload pushed holds
behind it.  A payload is a piece of what was to be read. -/
theorem loadLoop_invariant {bytes : List Byte} (inv : List Packet → Prop)
    (hpush : ∀ queue buf, inv queue → buf <:+: bytes → buf.length < 5000 →
      isFrameCRCOK buf = true → inv (push queue ((Packet.mk [] []).setPacket buf)))
    (fuel : ℕ) (file : File) (queue loaded : List Packet) (hfile : file.rest <:+ bytes)
    (hqueue : inv queue) (h : loadLoop fuel file queue = some loaded) : inv loaded := by
  induction fuel generalizing file queue with
  | zero => cases h
  | succ fuel ih =>
      simp only [loadLoop] at h
      split at h
      · obtain rfl := Option.some.inj h
        exact hqueue
      · split at h
        · obtain rfl := Option.some.inj h
          exact hqueue
        · rename_i word file₁ hword
          have hrest₁ : file₁.rest <:+ bytes := (fread_suffix hword).trans hfile
          split at h
          · rename_i hrange
            split at h
            · rename_i buf file₂ hbuf
              have hrest₂ : file₂.rest <:+ bytes := (fread_suffix hbuf).trans hrest₁
              split at h
              · rename_i hcrc
                have hpiece : buf <:+: bytes :=
                  (isPrefix_of_fread hbuf).isInfix.trans hrest₁.isInfix
                have hlen : buf.length < 5000 := by
                  rw [length_of_fread hbuf]
                  omega
                exact ih file₂ _ hrest₂ (hpush queue buf hqueue hpiece hlen hcrc) h
              · exact ih file₂ queue hrest₂ hqueue h
            · rename_i file₂ hbuf
              exact ih file₂ queue ((fread_suffix hbuf).trans hrest₁) hqueue h
          · exact ih file₁ queue hrest₁ hqueue h

theorem loadLoop_wellFormed (fuel : ℕ) (file : File) (queue loaded : List Packet)
    (hqueue : ∀ p ∈ queue, Storable p) (hnos : (queue.map Packet.getDataNo).Nodup)
    (h : loadLoop fuel file queue = some loaded) :
    (∀ p ∈ loaded, Storable p) ∧ (loaded.map Packet.getDataNo).Nodup := by
  refine loadLoop_invariant
    (fun queue ↦ (∀ p ∈ queue, Storable p) ∧ (queue.map Packet.getDataNo).Nodup)
    ?_ fuel file queue loaded (List.suffix_refl _) ⟨hqueue, hnos⟩ h
  rintro queue buf ⟨hstore, hnodup⟩ - hlen hcrc
  refine ⟨fun p hp ↦ ?_, push_nodup _ hnodup⟩
  rcases mem_of_mem_push hp with hp | rfl
  · exact hstore p hp
  · exact ⟨hcrc, hlen⟩

theorem load_wellFormed (file : Option (List Byte)) :
    (∀ p ∈ load file [], Storable p) ∧ ((load file []).map Packet.getDataNo).Nodup := by
  cases file with
  | none => simp [load]
  | some bytes =>
      obtain ⟨loaded, hloaded⟩ := loadLoop_terminates bytes []
      have hrun := hloaded (bytes.length + 1) (Nat.lt_succ_self _)
      rw [load, hrun, Option.getD_some]
      exact loadLoop_wellFormed _ _ [] loaded (by simp) (by simp) hrun

/-- Whatever the cut, `Load` terminates with the packets of the whole records;
the uncut file restores the queue. -/
theorem load_cut_file (q : List Packet) (hq : ∀ p ∈ q, Storable p)
    (hnos : (q.map Packet.getDataNo).Nodup) :
    (∀ k, ∃ j ≤ q.length, (save (q.take j)).length ≤ k ∧
      (j < q.length → k < (save (q.take (j + 1))).length) ∧
      (∀ fuel, ((save q).take k).length < fuel → ∃ loaded,
        loadLoop fuel ⟨(save q).take k, false⟩ [] = some loaded ∧
          loaded.map Packet.strCache = (q.take j).map Packet.strCache) ∧
      ∀ old, (load (some ((save q).take k)) old).map Packet.strCache =
        (q.take j).map Packet.strCache) ∧
    ∀ old, (load (some (save q)) old).map Packet.strCache = q.map Packet.strCache := by
  have hcontents : ∀ l : List Packet,
      (l.map reloaded).map Packet.strCache = l.map Packet.strCache := by
    intro l
    rw [List.map_map]
    exact List.map_congr_left fun p _ ↦ reloaded_strCache p
  constructor
  · intro k
    obtain ⟨hfit, hnext⟩ := Records.wholeWithin_spec record q k
    refine ⟨_, Records.wholeWithin_le record q k, hfit, hnext, fun fuel hfuel ↦ ?_, fun old ↦ ?_⟩
    · exact ⟨_, loadLoop_take_save hq hnos k fuel hfuel, hcontents _⟩
    · have hfuel := Nat.lt_succ_self ((save q).take k).length
      rw [load_eq_of_loadLoop hfuel (loadLoop_take_save hq hnos k _ hfuel) old, hcontents]
  · intro old
    rw [load_save hq hnos old, hcontents]

/-- A measurement frame with this data number and no further content. -/
def sampleFrame (no : Byte) : Packet :=
  (Packet.mk [] []).buildPacket [0x72#8, 0x61#8, 0x00#8, 0x02#8, 0x00#8, no] 0x01#8

/-- A status frame of the Monitoring Post with this data number and status. -/
def sampleStatus (no status : Byte) : Packet :=
  (Packet.mk [] []).buildPacket [0x77#8, 0x61#8, 0x00#8, 0x0c#8, 0x00#8, no,
    0x07#8, 0xda#8, 0x01#8, 0x01#8, 0x00#8, 0x00#8, 0x00#8, 0x00#8, 0x00#8, status] 0x01#8

theorem load_cut_file_two_frames :
    (∀ p ∈ [sampleFrame 1, sampleFrame 2], Storable p) ∧
      ([sampleFrame 1, sampleFrame 2].map Packet.getDataNo).Nodup ∧
      ∀ old, (load (some (save [sampleFrame 1, sampleFrame 2])) old).map Packet.strCache =
        [sampleFrame 1, sampleFrame 2].map Packet.strCache :=
  ⟨by decide +kernel, by decide +kernel,
    (load_cut_file _ (by decide +kernel) (by decide +kernel)).2⟩

end DataPacketQueue

end DeviceAgent
