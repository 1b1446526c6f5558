import DeviceAgent.Resynchronisation

/-!
# The byte at the front of the buffer

The receiver looks for `SOH` at the head of its outer loop only.  An overflow that
finds no further `SOH` empties the buffer inside the inner loop, where the next byte
is stored whatever it is.
-/

namespace DeviceAgent

open ReadResult

namespace Packet

/-! ## What the buffer holds during a call -/

/-- The buffer after each slip of the loop at the end of data. -/
def resyncBuffers : ℕ → Packet → List (List Byte)
  | 0, _ => []
  | n + 1, p =>
      if p.strCache = [] then []
      else
        let p := p.slipToNextStartToken
        p.strCache :: if isFrameCRCOK p.strCache then [] else resyncBuffers n p

/-- The buffer in each pass of the inner loop, with the byte stored and once more
behind the check. -/
def collectBuffers (p : Packet) (buff : Byte) (input : List ReadResult) : List (List Byte) :=
  let stored := p.storeByte buff
  (p.append [buff]).strCache :: stored.2.strCache ::
    if stored.1 then []
    else
      match input with
      | [] => resyncBuffers stored.2.getSize stored.2
      | zero :: _ => resyncBuffers stored.2.getSize stored.2
      | fail _ :: _ => []
      | byte b :: rest => collectBuffers stored.2 b rest

def scanBuffers (p : Packet) : List ReadResult → List (List Byte)
  | byte b :: rest => if b = SOH then collectBuffers p b rest else scanBuffers p rest
  | _ => []

/-- Every content the buffer has during the call, from the `clear` on. -/
def buffers (p : Packet) (input : List ReadResult) : List (List Byte) :=
  p.clear.strCache :: scanBuffers p.clear input

theorem collectBuffers_of_accept {p : Packet} {buff : Byte} (h : (p.storeByte buff).1 = true)
    (input : List ReadResult) :
    collectBuffers p buff input = [(p.append [buff]).strCache, (p.storeByte buff).2.strCache] := by
  unfold collectBuffers
  simp [h]

theorem collectBuffers_of_zero {p : Packet} {buff : Byte} (h : (p.storeByte buff).1 = false)
    (rest : List ReadResult) :
    collectBuffers p buff (zero :: rest) =
      (p.append [buff]).strCache :: (p.storeByte buff).2.strCache ::
        resyncBuffers (p.storeByte buff).2.getSize (p.storeByte buff).2 := by
  simp [collectBuffers, h]

theorem collectBuffers_of_byte {p : Packet} {buff : Byte} (h : (p.storeByte buff).1 = false)
    (b : Byte) (rest : List ReadResult) :
    collectBuffers p buff (byte b :: rest) =
      (p.append [buff]).strCache :: (p.storeByte buff).2.strCache ::
        collectBuffers (p.storeByte buff).2 b rest := by
  rw [collectBuffers]
  simp [h]

theorem resync_mem_buffers (n : ℕ) (p : Packet) :
    (resyncLoop n p).strCache ∈ p.strCache :: resyncBuffers n p := by
  induction n generalizing p with
  | zero => exact List.mem_cons_self
  | succ n ih =>
      simp only [resyncLoop, resyncBuffers]
      split
      · exact List.mem_cons_self
      · apply List.mem_cons_of_mem
        split
        · exact List.mem_cons_self
        · exact ih _

theorem collectFrame_mem_buffers (p : Packet) (buff : Byte) (input : List ReadResult) :
    (collectFrame p buff input).packet.strCache ∈ collectBuffers p buff input := by
  induction input generalizing p buff with
  | nil =>
      apply List.mem_cons_of_mem
      unfold collectFrame
      dsimp only
      split
      · exact List.mem_cons_self
      · exact resync_mem_buffers _ _
  | cons r rest ih =>
      unfold collectFrame collectBuffers
      apply List.mem_cons_of_mem
      dsimp only
      split
      · exact List.mem_cons_self
      · cases r with
        | byte b => exact List.mem_cons_of_mem _ (ih _ b)
        | zero => exact resync_mem_buffers _ _
        | fail e => exact List.mem_cons_self

/-- The packet a call returns is one of the contents. -/
theorem receiveFrameFrom_mem_buffers (p : Packet) (input : List ReadResult) :
    (p.receiveFrameFrom input).packet.strCache ∈ p.buffers input := by
  have hscan : ∀ q : Packet, (scanFrame q input).packet.strCache ∈
      q.strCache :: scanBuffers q input := by
    intro q
    induction input with
    | nil => exact List.mem_cons_self
    | cons r rest ih =>
        cases r with
        | byte b =>
            simp only [scanFrame, scanBuffers]
            split
            · exact List.mem_cons_of_mem _ (collectFrame_mem_buffers q b rest)
            · exact ih
        | zero => exact List.mem_cons_self
        | fail e => exact List.mem_cons_self
  exact hscan p.clear

/-- A byte stored behind `w` makes `w ++ [b]` one of the contents. -/
theorem held_mem_collectBuffers {p : Packet} {bs pre w : List Byte} {buff b : Byte}
    (hpre : pre ++ [b] <+: buff :: bs) (hw : held p.strCache pre = some w)
    (tail : List ReadResult) :
    w ++ [b] ∈ collectBuffers p buff (bs.map byte ++ zero :: tail) := by
  induction pre generalizing p bs buff with
  | nil =>
      obtain rfl : p.strCache = w := Option.some.inj hw
      obtain rfl : b = buff := (List.cons_prefix_cons.mp hpre).1
      unfold collectBuffers
      exact List.mem_cons_self
  | cons c pre ih =>
      obtain ⟨rfl, hrest⟩ := List.cons_prefix_cons.mp hpre
      -- there is a byte behind the first one, so the pass did not accept a frame
      rcases storeByte_eq p c with ⟨-, hnone⟩ | ⟨hval, hheld⟩
      · rw [← List.singleton_append, held_append, hnone] at hw
        cases hw
      · rw [← List.singleton_append, held_append, hheld] at hw
        cases bs with
        | nil => simp at hrest
        | cons d bs =>
            rw [List.map_cons, List.cons_append, collectBuffers_of_byte hval]
            exact List.mem_cons_of_mem _ (List.mem_cons_of_mem _ (ih hrest hw))

/-! ## Contents that begin with the start byte -/

def Synchronised (s : List Byte) : Prop := s ≠ [] → s.head? = some SOH

theorem synchronised_nil : Synchronised [] := fun h ↦ absurd rfl h

theorem synchronised_dropWhile (s : List Byte) : Synchronised (s.dropWhile (· != SOH)) :=
  fun hne ↦ head?_dropWhile hne

theorem synchronised_slip (p : Packet) : Synchronised p.slipToNextStartToken.strCache := by
  rw [slip_strCache]
  exact synchronised_dropWhile _

theorem Synchronised.kept {s : List Byte} (h : Synchronised s) : Synchronised (kept s) := by
  unfold Packet.kept
  split
  · exact synchronised_dropWhile _
  · exact h

/-- A byte goes behind a start byte, or is one. -/
theorem Synchronised.concat {s : List Byte} {b : Byte} (h : Synchronised s)
    (hb : s = [] → b = SOH) : Synchronised (s ++ [b]) := by
  intro _
  by_cases hnil : s = []
  · rw [hnil, hb hnil]
    rfl
  · rw [List.head?_append_of_ne_nil _ hnil]
    exact h hnil

theorem Synchronised.storeByte {p : Packet} {b : Byte}
    (h : Synchronised (p.strCache ++ [b])) : Synchronised (p.storeByte b).2.strCache := by
  unfold Packet.storeByte
  split
  · rw [isValidFrame_strCache]
    exact h.kept
  · exact h

theorem resyncBuffers_synchronised (n : ℕ) (p : Packet) :
    ∀ s ∈ resyncBuffers n p, Synchronised s := by
  induction n generalizing p with
  | zero => simp [resyncBuffers]
  | succ n ih =>
      intro s hs
      simp only [resyncBuffers] at hs
      split at hs
      · cases hs
      · rcases List.mem_cons.mp hs with rfl | hs
        · exact synchronised_slip p
        · split at hs
          · cases hs
          · exact ih _ s hs

/-- Wherever the buffer behind `w` has been emptied, the next byte is a start byte. -/
def RestartsAtSOH (w bs : List Byte) : Prop :=
  ∀ pre b, pre ++ [b] <+: bs → held w pre = some [] → b = SOH

theorem RestartsAtSOH.head {w bs : List Byte} {b : Byte} (h : RestartsAtSOH w (b :: bs))
    (hw : w = []) : b = SOH := by
  apply h [] b
  · exact List.prefix_append [b] bs
  · rw [hw]
    rfl

theorem RestartsAtSOH.tail {w w' bs : List Byte} {b : Byte} (h : RestartsAtSOH w (b :: bs))
    (hw : held w [b] = some w') : RestartsAtSOH w' bs := by
  intro pre c hpre hempty
  apply h (b :: pre) c
  · exact (List.prefix_cons_inj b).mpr hpre
  · rw [← List.singleton_append, held_append, hw]
    exact hempty

/-- The two contents of a pass, as far as a frame that was accepted has no others. -/
theorem Synchronised.accepted {p : Packet} {buff : Byte} (h : Synchronised (p.strCache ++ [buff]))
    (hval : (p.storeByte buff).1 = true) (input : List ReadResult) :
    ∀ s ∈ collectBuffers p buff input, Synchronised s := by
  rw [collectBuffers_of_accept hval, List.forall_mem_cons, List.forall_mem_singleton]
  exact ⟨h, h.storeByte⟩

theorem collectBuffers_synchronised {p : Packet} {buff : Byte} {bs : List Byte}
    (hp : Synchronised p.strCache) (hstart : RestartsAtSOH p.strCache (buff :: bs))
    (tail : List ReadResult) :
    ∀ s ∈ collectBuffers p buff (bs.map byte ++ zero :: tail), Synchronised s := by
  induction bs generalizing p buff with
  | nil =>
      have hgrown := hp.concat hstart.head
      rcases storeByte_eq p buff with ⟨hval, -⟩ | ⟨hval, -⟩
      · exact hgrown.accepted hval _
      · rw [List.map_nil, List.nil_append, collectBuffers_of_zero hval, List.forall_mem_cons,
          List.forall_mem_cons]
        exact ⟨hgrown, hgrown.storeByte, resyncBuffers_synchronised _ _⟩
  | cons c bs ih =>
      have hgrown := hp.concat hstart.head
      rcases storeByte_eq p buff with ⟨hval, -⟩ | ⟨hval, hheld⟩
      · exact hgrown.accepted hval _
      · rw [List.map_cons, List.cons_append, collectBuffers_of_byte hval, List.forall_mem_cons,
          List.forall_mem_cons]
        exact ⟨hgrown, hgrown.storeByte, ih hgrown.storeByte (hstart.tail hheld)⟩

/-! ## The whole call -/

/-- What the call collects, from the first start byte on. -/
theorem scanBuffers_stored (p : Packet) (bs : List Byte) (tail : List ReadResult) :
    (stored bs = [] ∧ scanBuffers p (bs.map byte ++ zero :: tail) = []) ∨
      ∃ more, stored bs = SOH :: more ∧
        scanBuffers p (bs.map byte ++ zero :: tail) =
          collectBuffers p SOH (more.map byte ++ zero :: tail) := by
  induction bs with
  | nil => exact Or.inl ⟨rfl, rfl⟩
  | cons b bs ih =>
      by_cases hb : b = SOH
      · right
        refine ⟨bs, ?_, ?_⟩
        · rw [stored, hb]
          rfl
        · rw [List.map_cons, List.cons_append, scanBuffers, if_pos hb, hb]
      · have hskip : stored (b :: bs) = stored bs :=
          List.dropWhile_cons_of_pos (by simpa using hb)
        rw [hskip, List.map_cons, List.cons_append, scanBuffers, if_neg hb]
        exact ih

/-- The buffer begins with the start byte all through a call, and so does what the
call returns, exactly if each byte that follows an emptied buffer is a start byte. -/
theorem buffers_synchronised_iff (p : Packet) (bs : List Byte) (tail : List ReadResult) :
    ((∀ s ∈ p.buffers (bs.map byte ++ zero :: tail), s ≠ [] → s.head? = some SOH) ∧
        ((p.receiveFrameFrom (bs.map byte ++ zero :: tail)).packet.strCache ≠ [] →
          (p.receiveFrameFrom (bs.map byte ++ zero :: tail)).packet.strCache.head? =
            some SOH)) ↔
      RestartsAtSOH [] (stored bs) := by
  constructor
  · rintro ⟨hall, -⟩ pre b hpre hempty
    rcases scanBuffers_stored p.clear bs tail with ⟨hnil, -⟩ | ⟨more, hmore, hscan⟩
    · rw [hnil] at hpre
      simp at hpre
    · rw [hmore] at hpre
      have hmem : [b] ∈ p.buffers (bs.map byte ++ zero :: tail) := by
        apply List.mem_cons_of_mem
        rw [hscan]
        exact held_mem_collectBuffers (p := p.clear) hpre hempty tail
      exact Option.some.inj (hall [b] hmem (List.cons_ne_nil b []))
  · intro hstart
    have hall : ∀ s ∈ p.buffers (bs.map byte ++ zero :: tail), Synchronised s := by
      intro s hs
      rcases List.mem_cons.mp hs with rfl | hs
      · exact synchronised_nil
      · rcases scanBuffers_stored p.clear bs tail with ⟨-, hscan⟩ | ⟨more, hmore, hscan⟩
        · rw [hscan] at hs
          cases hs
        · rw [hscan] at hs
          rw [hmore] at hstart
          exact collectBuffers_synchronised (p := p.clear) synchronised_nil hstart tail s hs
    exact ⟨hall, hall _ (receiveFrameFrom_mem_buffers p _)⟩

/-! ## A packet that begins elsewhere -/

/-- A start byte, zeros and an end byte: with 4055 zeros the buffer is overrun, and
there is no further start byte to slip to. -/
def overrun (zeros : ℕ) : List Byte := SOH :: List.replicate zeros 0x00#8 ++ [EOT]

/-- The request with a digit in the place of its start byte.  The check does not
look at the first three bytes. -/
def headless : List Byte := 0x30#8 :: requestFrame.tail

theorem overrun_not_frame (n : ℕ) : isFrameCRCOK (overrun (n + 4)) = false := by
  have hparts : overrun (n + 4) =
      SOH :: 0x00#8 :: 0x00#8 :: (List.replicate n 0x00#8 ++ [0x00#8, 0x00#8, EOT]) := by
    have hzeros : List.replicate (n + 4) 0x00#8 =
        0x00#8 :: 0x00#8 :: (List.replicate n 0x00#8 ++ [0x00#8, 0x00#8]) := by
      rw [List.replicate_succ, List.replicate_succ, List.replicate_succ', List.replicate_succ',
        List.append_assoc]
      rfl
    rw [overrun, hzeros]
    simp
  rw [hparts, ← Bool.not_eq_true, isFrameCRCOK_parts]
  rintro ⟨-, -, hetx, -⟩
  have hmem := List.eq_of_mem_replicate (List.mem_of_getLast? hetx)
  exact absurd hmem (by decide)

theorem held_overrun {zeros : ℕ} (hlong : 4055 ≤ zeros) :
    held [] (overrun zeros) = some [] := by
  have hquiet : EOT ∉ SOH :: List.replicate zeros 0x00#8 := by
    intro hmem
    rcases List.mem_cons.mp hmem with heq | hmem
    · exact absurd heq (by decide)
    · exact absurd (List.eq_of_mem_replicate hmem) (by decide)
  have hbad : isFrameCRCOK (overrun zeros) = false := by
    obtain ⟨n, rfl⟩ : ∃ n, zeros = n + 4 := ⟨zeros - 4, by omega⟩
    exact overrun_not_frame n
  have hkept : kept (overrun zeros) = [] := by
    rw [kept, if_pos ⟨hbad, by simp [overrun]; omega⟩]
    apply List.dropWhile_eq_nil_iff.mpr
    intro b hb
    rw [overrun, List.cons_append, List.drop_succ_cons, List.drop_zero] at hb
    rcases List.mem_append.mp hb with hb | hb
    · rw [List.eq_of_mem_replicate hb]
      decide
    · rw [List.mem_singleton.mp hb]
      decide
  rw [overrun, held_append, held_quiet [] _ hquiet, List.nil_append, Option.bind_some,
    held_eot _ hbad]
  exact congrArg some hkept

/-- Behind an overrun that empties the buffer the receiver takes a packet that does
not begin with `SOH`. -/
theorem headless_received :
    headless.head? = some 0x30#8 ∧ (0x30#8 : Byte) ≠ SOH ∧
      ((Packet.mk [] []).receiveFrameFrom
        ((overrun 4055 ++ headless).map byte ++ [zero])).packet.strCache = headless := by
  have hok : isFrameCRCOK headless = true := by decide +kernel
  have hquiet : EOT ∉ headless.dropLast := by decide +kernel
  refine ⟨rfl, by decide, ?_⟩
  apply receiveFrameFrom_inLine
  have hstored : stored (overrun 4055 ++ headless) = overrun 4055 ++ headless := rfl
  rw [hstored]
  refine ⟨overrun 4055 ++ headless.dropLast, headless.dropLast, ?_, ?_, ?_, ?_⟩
  · rw [List.append_assoc, ← eq_dropLast_concat hok]
  · rw [held_append, held_overrun le_rfl]
    exact held_quiet [] _ hquiet
  · rw [← eq_dropLast_concat hok]
    exact hok
  · exact eq_dropLast_concat hok

end Packet

end DeviceAgent
