import DeviceAgent.FrameReception

/-!
# Resynchronisation after an overflow

A frame behind junk is found again by slipping from one `SOH` to the next.  The
overflow branch slips once without a new check, and the loop at the end of data
slips before its first check.  When the last byte of a frame overruns a buffer
in which that frame is next, the two slips together step over it.
-/

namespace DeviceAgent

open ReadResult

namespace Packet

/-! ## The buffer as a function of the bytes -/

/-- What the buffer holds when these bytes have been stored behind `w`, as long as
no frame has been accepted. -/
def held (w : List Byte) : List Byte → Option (List Byte)
  | [] => some w
  | b :: rest =>
      if b = EOT then
        if isFrameCRCOK (w ++ [b]) then none else held (kept (w ++ [b])) rest
      else held (w ++ [b]) rest

theorem held_append (w bs more : List Byte) :
    held w (bs ++ more) = (held w bs).bind fun w' ↦ held w' more := by
  induction bs generalizing w with
  | nil => rfl
  | cons b bs ih =>
      simp only [List.cons_append, held]
      split
      · split
        · rfl
        · exact ih _
      · exact ih _

theorem held_eot (w : List Byte) (hbad : isFrameCRCOK (w ++ [EOT]) = false) :
    held w [EOT] = some (kept (w ++ [EOT])) := by
  simp [held, hbad]

theorem held_quiet (w bs : List Byte) (hbs : EOT ∉ bs) : held w bs = some (w ++ bs) := by
  induction bs generalizing w with
  | nil => rw [held, List.append_nil]
  | cons b bs ih =>
      have hb : ¬ b = EOT := fun h ↦ hbs (by simp [h])
      rw [held, if_neg hb, ih _ fun h ↦ hbs (List.mem_cons_of_mem b h), List.append_assoc]
      rfl

theorem kept_suffix (s : List Byte) : kept s <:+ s := by
  unfold kept
  split
  · exact (List.dropWhile_suffix _).trans (List.drop_suffix 1 s)
  · exact List.suffix_refl s

theorem held_length_le {w bs w' : List Byte} (h : held w bs = some w') :
    w'.length ≤ w.length + bs.length := by
  induction bs generalizing w with
  | nil =>
      obtain rfl : w = w' := Option.some.inj h
      exact Nat.le_add_right _ _
  | cons b bs ih =>
      have hkept := (kept_suffix (w ++ [b])).length_le
      rw [List.length_append, List.length_singleton] at hkept
      rw [List.length_cons]
      simp only [held] at h
      split at h
      · split at h
        · cases h
        · have := ih h
          omega
      · have := ih h
        rw [List.length_append, List.length_singleton] at this
        omega

theorem storeByte_eq (p : Packet) (b : Byte) :
    ((p.storeByte b).1 = true ∧ held p.strCache [b] = none) ∨
      ((p.storeByte b).1 = false ∧
        held p.strCache [b] = some (p.storeByte b).2.strCache) := by
  by_cases heot : b = EOT
  · rw [storeByte, if_pos heot, held, if_pos heot, isValidFrame_fst, isValidFrame_strCache,
      append_strCache]
    cases isFrameCRCOK (p.strCache ++ [b]) with
    | true => exact Or.inl ⟨rfl, rfl⟩
    | false => exact Or.inr ⟨rfl, rfl⟩
  · rw [storeByte, if_neg heot, held, if_neg heot]
    exact Or.inr ⟨rfl, rfl⟩

/-- The frame `t` is accepted while these bytes are stored behind `w`: it is what the
buffer holds before an end byte, with that byte. -/
def InLine (w bs t : List Byte) : Prop :=
  ∃ pre before, pre ++ [EOT] <+: bs ∧ held w pre = some before ∧
    isFrameCRCOK (before ++ [EOT]) = true ∧ t = before ++ [EOT]

theorem InLine.ok {w bs t : List Byte} (h : InLine w bs t) : isFrameCRCOK t = true := by
  obtain ⟨pre, before, -, -, hok, rfl⟩ := h
  exact hok

theorem InLine.held_eq_none {w bs t : List Byte} (h : InLine w bs t) : held w bs = none := by
  obtain ⟨pre, before, ⟨more, rfl⟩, hheld, hok, -⟩ := h
  rw [held_append, held_append, hheld]
  simp [held, hok]

theorem InLine.cons {w w' bs t : List Byte} {b : Byte} (hb : held w [b] = some w')
    (h : InLine w' bs t) : InLine w (b :: bs) t := by
  obtain ⟨pre, before, hpre, hheld, hok, rfl⟩ := h
  refine ⟨b :: pre, before, (List.prefix_cons_inj b).mpr hpre, ?_, hok, rfl⟩
  rw [← List.singleton_append, held_append, hb]
  exact hheld

theorem inLine_of_accept {p : Packet} {b : Byte} (h : (p.storeByte b).1 = true)
    (bs : List Byte) : InLine p.strCache (b :: bs) (p.strCache ++ [b]) := by
  obtain ⟨rfl, hok, -⟩ := storeByte_of_accept h
  exact ⟨[], p.strCache, List.prefix_append [EOT] bs, rfl, hok, rfl⟩

/-- Nothing is stored behind an accepted frame, so there is only one. -/
theorem InLine.unique {w bs t u : List Byte} (ht : InLine w bs t) (hu : InLine w bs u) :
    t = u := by
  -- the earlier of two accepted frames leaves nothing held for the later one
  have hshort : ∀ {pre pre' before before' : List Byte}, pre ++ [EOT] <+: bs →
      pre' ++ [EOT] <+: bs → held w pre = some before → held w pre' = some before' →
      isFrameCRCOK (before ++ [EOT]) = true → pre'.length ≤ pre.length := by
    intro pre pre' before before' hpre hpre' hheld hheld' hok
    by_contra hlt
    have hinside : pre ++ [EOT] <+: pre' := by
      refine List.prefix_of_prefix_length_le hpre
        ((List.prefix_append pre' [EOT]).trans hpre') ?_
      rw [List.length_append, List.length_singleton]
      omega
    have hnone := InLine.held_eq_none ⟨pre, before, hinside, hheld, hok, rfl⟩
    rw [hheld'] at hnone
    cases hnone
  obtain ⟨pre, before, hpre, hheld, hok, rfl⟩ := ht
  obtain ⟨pre', before', hpre', hheld', hok', rfl⟩ := hu
  have hsame : pre = pre' := by
    have hlen := le_antisymm (hshort hpre' hpre hheld' hheld hok')
      (hshort hpre hpre' hheld hheld' hok)
    exact (List.prefix_of_prefix_length_le ((List.prefix_append pre [EOT]).trans hpre)
      ((List.prefix_append pre' [EOT]).trans hpre') hlen.le).eq_of_length hlen
  rw [hsame, hheld'] at hheld
  rw [Option.some.inj hheld]

/-- The loop ends with a frame it has accepted, or with the search through what it
holds. -/
theorem collectFrame_held (p : Packet) (b : Byte) (bs : List Byte) (tail : List ReadResult) :
    InLine p.strCache (b :: bs)
        (collectFrame p b (bs.map byte ++ zero :: tail)).packet.strCache ∨
      ∃ q : Packet, held p.strCache (b :: bs) = some q.strCache ∧
        (collectFrame p b (bs.map byte ++ zero :: tail)).packet = q.resync := by
  induction bs generalizing p b with
  | nil =>
      rcases storeByte_eq p b with ⟨hval, -⟩ | ⟨hval, hheld⟩
      · left
        rw [collectFrame_of_accept hval]
        exact inLine_of_accept hval []
      · right
        refine ⟨(p.storeByte b).2, hheld, ?_⟩
        rw [List.map_nil, List.nil_append, collectFrame_of_zero hval]
  | cons c bs ih =>
      rcases storeByte_eq p b with ⟨hval, -⟩ | ⟨hval, hheld⟩
      · left
        rw [collectFrame_of_accept hval]
        exact inLine_of_accept hval (c :: bs)
      · rw [List.map_cons, List.cons_append, collectFrame_of_byte hval]
        rcases ih (p.storeByte b).2 c with hline | ⟨q, hq, hpacket⟩
        · exact Or.inl (hline.cons hheld)
        · refine Or.inr ⟨q, ?_, hpacket⟩
          rw [← List.singleton_append, held_append, hheld]
          exact hq

/-! ## A frame on its way is not lost -/

/-- An overflow slips to the next `SOH`, which is at most that of the frame under
way. -/
theorem suffix_kept {w v : List Byte} (hv : v <:+ w) (hhead : v.head? = some SOH)
    (hsize : v.length ≤ 4056) : v <:+ kept w := by
  unfold kept
  split
  · rename_i hover
    refine suffix_dropWhile_of_head ?_ hhead
    cases w with
    | nil => exact hv
    | cons c w =>
        rcases List.suffix_cons_iff.mp hv with heq | htail
        · have hlen := congrArg List.length heq
          omega
        · exact htail
  · exact hv

/-- As long as the bytes of a frame come in, what has come is the end of the
buffer. -/
theorem suffix_held {f : List Byte} (hhead : f.head? = some SOH) (hsize : f.length ≤ 4056)
    (v more : List Byte) (hf : v ++ more = f) {w w' : List Byte} (hw : held w v = some w') :
    v <:+ w' := by
  induction v using List.reverseRecOn generalizing more w' with
  | nil => exact List.nil_suffix
  | append_singleton v b ih =>
      obtain ⟨w₁, hw₁, hlast⟩ : ∃ w₁, held w v = some w₁ ∧ held w₁ [b] = some w' := by
        rw [held_append] at hw
        exact Option.bind_eq_some_iff.mp hw
      have hv : v <:+ w₁ := ih (b :: more) (by simpa using hf) hw₁
      have hgrown : v ++ [b] <:+ w₁ ++ [b] := by
        obtain ⟨front, rfl⟩ := hv
        exact ⟨front, by rw [List.append_assoc]⟩
      have hhead' : (v ++ [b]).head? = some SOH := by
        rw [← hf, List.head?_append_of_ne_nil _ (by simp)] at hhead
        exact hhead
      have hlen : (v ++ [b]).length ≤ 4056 := by
        rw [← hf, List.length_append] at hsize
        omega
      simp only [held] at hlast
      split at hlast
      · split at hlast
        · cases hlast
        · obtain rfl := Option.some.inj hlast
          exact suffix_kept hgrown hhead' hlen
      · obtain rfl := Option.some.inj hlast
        exact hgrown

/-! ## When the search finds a frame -/

/-- The bytes of a stream that are stored: all from the first `SOH` on. -/
def stored (bs : List Byte) : List Byte := bs.dropWhile (· != SOH)

/-- The buffer `w` is overrun by the last byte of the frame `f` in it: the whole is
too long and no frame, and the next `SOH` behind its first byte is that of `f`. -/
def Overruns (w f : List Byte) : Prop :=
  isFrameCRCOK (w ++ [EOT]) = false ∧ 4056 < (w ++ [EOT]).length ∧
    ((w ++ [EOT]).drop 1).dropWhile (· != SOH) = f

theorem kept_eq_of_overruns {w f : List Byte} (h : Overruns w f) : kept (w ++ [EOT]) = f := by
  obtain ⟨hbad, hlong, hnext⟩ := h
  rw [kept, if_pos ⟨hbad, hlong⟩]
  exact hnext

theorem overruns_of_kept {w f : List Byte} (hok : isFrameCRCOK f = true)
    (hbad : isFrameCRCOK (w ++ [EOT]) = false) (hkept : kept (w ++ [EOT]) = f) :
    Overruns w f := by
  unfold kept at hkept
  split at hkept
  · rename_i hover
    exact ⟨hbad, hover.2, hkept⟩
  · rw [hkept, hok] at hbad
    cases hbad

theorem resync_finds_iff (q : Packet) :
    (q.resync.strCache ≠ [] ∧ isFrameCRCOK q.resync.strCache = true) ↔
      ∃ t, Candidate q.strCache t := by
  rcases resync_longest q with ⟨hcand, -⟩ | ⟨hempty, hnone⟩
  · exact iff_of_true ⟨ne_nil_of_isFrameCRCOK hcand.2.2.2, hcand.2.2.2⟩ ⟨_, hcand⟩
  · exact iff_of_false (fun h ↦ h.1 hempty) fun ⟨t, ht⟩ ↦ hnone t ht

/-- The call on a stream with a start byte, in terms of the bytes stored. -/
theorem receiveFrameFrom_held (p : Packet) {bs : List Byte} (hne : stored bs ≠ [])
    (tail : List ReadResult) :
    InLine [] (stored bs) (p.receiveFrameFrom (bs.map byte ++ zero :: tail)).packet.strCache ∨
      ∃ q : Packet, held [] (stored bs) = some q.strCache ∧
        (p.receiveFrameFrom (bs.map byte ++ zero :: tail)).packet = q.resync := by
  have hhead := head?_dropWhile hne
  have hsplit : bs = bs.takeWhile (· != SOH) ++ stored bs :=
    (List.takeWhile_append_dropWhile).symm
  have hnoise : SOH ∉ bs.takeWhile (· != SOH) := fun hmem ↦ by
    simpa using List.mem_takeWhile_imp hmem
  obtain ⟨b, more, hstored⟩ := List.exists_cons_of_ne_nil hne
  have hb : b = SOH := by
    change (stored bs).head? = some SOH at hhead
    rw [hstored] at hhead
    exact Option.some.inj hhead
  have hcall : p.receiveFrameFrom (bs.map byte ++ zero :: tail) =
      collectFrame p.clear b (more.map byte ++ zero :: tail) := by
    rw [hsplit, hstored, List.map_append, List.append_assoc, receiveFrameFrom,
      scanFrame_noise _ _ hnoise, List.map_cons, List.cons_append, scanFrame, if_pos hb]
  rw [hcall, hstored]
  exact collectFrame_held p.clear b more tail

/-- A frame accepted in line is what the call returns. -/
theorem receiveFrameFrom_inLine (p : Packet) {bs t : List Byte} (h : InLine [] (stored bs) t)
    (tail : List ReadResult) :
    (p.receiveFrameFrom (bs.map byte ++ zero :: tail)).packet.strCache = t := by
  have hnone := h.held_eq_none
  have hne : stored bs ≠ [] := by
    intro hnil
    rw [hnil] at hnone
    cases hnone
  rcases receiveFrameFrom_held p hne tail with hline | ⟨q, hq, -⟩
  · exact hline.unique h
  · rw [hnone] at hq
    cases hq

/-- A frame with no end byte before its last is accepted in line, however long. -/
theorem inLine_quiet {f : List Byte} (hquiet : EOT ∉ f) (hok : isFrameCRCOK (f ++ [EOT]) = true) :
    InLine [] (f ++ [EOT]) (f ++ [EOT]) :=
  ⟨f, f, List.prefix_refl _, held_quiet [] f hquiet, hok, rfl⟩

section JunkAndFrame

variable (junk : List Byte) {f : List Byte}

theorem exists_stored_append (hhead : f.head? = some SOH) :
    ∃ u, stored (junk ++ f) = u ++ f := by
  obtain ⟨u, hu⟩ := suffix_dropWhile_of_head (List.suffix_append junk f) hhead
  exact ⟨u, hu.symm⟩

theorem eq_dropLast_concat (hok : isFrameCRCOK f = true) : f = f.dropLast ++ [EOT] := by
  obtain ⟨front, rfl⟩ := List.getLast?_eq_some_iff.mp (getLast?_of_isFrameCRCOK hok)
  rw [List.dropLast_concat]

/-- The step of the last byte, from what is held before it. -/
theorem held_stored (hhead : f.head? = some SOH) (hok : isFrameCRCOK f = true) :
    held [] (stored (junk ++ f)) =
      (held [] (stored (junk ++ f)).dropLast).bind fun w ↦ held w [EOT] := by
  obtain ⟨u, hu⟩ := exists_stored_append junk hhead
  have hlast : stored (junk ++ f) = (stored (junk ++ f)).dropLast ++ [EOT] := by
    rw [hu, eq_dropLast_concat hok, ← List.append_assoc, List.dropLast_concat]
  rw [← held_append, ← hlast]

theorem stored_ne_nil (hhead : f.head? = some SOH) : stored (junk ++ f) ≠ [] := by
  obtain ⟨u, hu⟩ := exists_stored_append junk hhead
  have hne : f ≠ [] := by
    rintro rfl
    cases hhead
  rw [hu]
  simp [hne]

/-- Behind an overrun the frame alone is left in the buffer, and the loop at the
end of data starts with a slip. -/
theorem receiveFrameFrom_of_overruns (p : Packet) (tail : List ReadResult)
    (hhead : f.head? = some SOH) (hok : isFrameCRCOK f = true) {w : List Byte}
    (hw : held [] (stored (junk ++ f)).dropLast = some w) (hover : Overruns w f) :
    ∃ q : Packet, q.strCache = f ∧
      (p.receiveFrameFrom ((junk ++ f).map byte ++ zero :: tail)).packet = q.resync := by
  have hheld : held [] (stored (junk ++ f)) = some f := by
    rw [held_stored junk hhead hok, hw, Option.bind_some, held_eot w hover.1,
      kept_eq_of_overruns hover]
  rcases receiveFrameFrom_held p (stored_ne_nil junk hhead) tail with hline | ⟨q, hq, heq⟩
  · rw [hline.held_eq_none] at hheld
    cases hheld
  · rw [hheld] at hq
    exact ⟨q, (Option.some.inj hq).symm, heq⟩

end JunkAndFrame

/-- A good frame behind any junk is found, or another good one instead, exactly if
its last byte does not overrun the buffer with the frame next in it, or the frame
has a shorter good frame in its end. -/
theorem receiveFrameFrom_behind_junk_iff (p : Packet) (junk f : List Byte)
    (tail : List ReadResult) (hhead : f.head? = some SOH) (hok : isFrameCRCOK f = true)
    (hsize : f.length ≤ 4056) :
    ((p.receiveFrameFrom ((junk ++ f).map byte ++ zero :: tail)).packet.strCache ≠ [] ∧
        isFrameCRCOK
          (p.receiveFrameFrom ((junk ++ f).map byte ++ zero :: tail)).packet.strCache = true) ↔
      ∀ w, held [] (stored (junk ++ f)).dropLast = some w → Overruns w f →
        ∃ t, Candidate f t := by
  constructor
  · intro hfound w hw hover
    obtain ⟨q, hqf, hpacket⟩ := receiveFrameFrom_of_overruns junk p tail hhead hok hw hover
    rw [hpacket, resync_finds_iff, hqf] at hfound
    exact hfound
  · intro hcond
    rcases receiveFrameFrom_held p (stored_ne_nil junk hhead) tail with hline | ⟨q, hq, hpacket⟩
    · exact ⟨ne_nil_of_isFrameCRCOK hline.ok, hline.ok⟩
    · rw [hpacket, resync_finds_iff]
      obtain ⟨w, hw, hstep⟩ :=
        Option.bind_eq_some_iff.mp ((held_stored junk hhead hok).symm.trans hq)
      have hsuffix : f <:+ q.strCache := by
        obtain ⟨u, hu⟩ := exists_stored_append junk hhead
        rw [hu, held_append] at hq
        obtain ⟨w₀, -, hf⟩ := Option.bind_eq_some_iff.mp hq
        exact suffix_held hhead hsize f [] (List.append_nil f) hf
      have hbad : isFrameCRCOK (w ++ [EOT]) = false := by
        by_contra hgood
        simp [held, Bool.eq_true_of_not_eq_false hgood] at hstep
      rw [held_eot w hbad] at hstep
      by_cases hexact : q.strCache = f
      · rw [hexact]
        exact hcond w hw (overruns_of_kept hok hbad ((Option.some.inj hstep).trans hexact))
      · exact ⟨f, hsuffix, Ne.symm hexact, hhead, hok⟩

/-- Below the limit nothing can overrun. -/
theorem receiveFrameFrom_behind_junk_request :
    ((Packet.mk [] []).receiveFrameFrom
        (([SOH, 0x30] ++ requestFrame).map byte ++ [zero])).packet.strCache ≠ [] ∧
      isFrameCRCOK ((Packet.mk [] []).receiveFrameFrom
        (([SOH, 0x30] ++ requestFrame).map byte ++ [zero])).packet.strCache = true := by
  rw [receiveFrameFrom_behind_junk_iff ⟨[], []⟩ [SOH, 0x30] requestFrame [] (by decide)
    (by decide) (by decide)]
  intro w hw hover
  have hshort := held_length_le hw
  have hlong := hover.2.1
  have hstored : (stored ([SOH, 0x30] ++ requestFrame)).dropLast.length = 10 := by decide
  rw [hstored, List.length_nil] at hshort
  rw [List.length_append, List.length_singleton] at hlong
  omega

/-! ## A frame that is lost -/

def noise : List Byte := [0x00#8, 0x00#8, 0xff#8, 0xff#8] ++ List.replicate 4043 0x00#8

/-- A start byte and 4047 bytes without another, as a noisy line may bring them. -/
def longJunk : List Byte := SOH :: noise

theorem mem_noise {b : Byte} (hb : b ∈ noise) : b = 0x00#8 ∨ b = 0xff#8 := by
  rcases List.mem_append.mp hb with hb | hb
  · simp only [List.mem_cons, List.not_mem_nil, or_false] at hb
    tauto
  · exact Or.inl (List.eq_of_mem_replicate hb)

theorem crc16_zeros (n : ℕ) : crc16 0#16 (List.replicate n 0x00#8) = 0#16 := by
  induction n with
  | zero => rfl
  | succ n ih =>
      have hzero : crc16Byte 0x00#8 0#16 = 0#16 := by decide
      rw [List.replicate_succ, crc16_cons, hzero]
      exact ih

theorem requestFrame_eq :
    requestFrame = [SOH, 0x01#8, STX, 0x72#8, 0x61#8, ETX] ++ [0x42#8, 0x45#8, EOT] := by
  decide

/-- The two bytes `ff` clear the register, and zeros leave it clear. -/
theorem longJunk_not_frame : isFrameCRCOK (longJunk ++ requestFrame) = false := by
  have hparts : longJunk ++ requestFrame = SOH :: 0x00#8 :: 0x00#8 ::
      ([0xff#8, 0xff#8] ++ List.replicate 4043 0x00#8 ++
        [SOH, 0x01#8, STX, 0x72#8, 0x61#8, ETX] ++ [0x42#8, 0x45#8, EOT]) := by
    rw [requestFrame_eq, longJunk, noise, ← List.append_assoc]
    rfl
  have hclear : crc16 (~~~0#16) [0xff#8, 0xff#8] = 0#16 := by decide
  rw [hparts, ← Bool.not_eq_true, isFrameCRCOK_parts]
  rintro ⟨-, -, -, hcrc⟩
  rw [crc16_append, crc16_append, hclear, crc16_zeros] at hcrc
  revert hcrc
  decide

/-- The frame that follows is complete in the buffer and passes the check, and
nothing is returned. -/
theorem frame_lost_behind_longJunk :
    requestFrame.head? = some SOH ∧ isFrameCRCOK requestFrame = true ∧
      requestFrame.length = 9 ∧
      ((Packet.mk [] []).receiveFrameFrom
        ((longJunk ++ requestFrame).map byte ++ [zero])).packet.strCache = [] := by
  have hhead : requestFrame.head? = some SOH := by decide
  have hok : isFrameCRCOK requestFrame = true := by decide
  have hall : requestFrame.length = 9 := by decide
  refine ⟨hhead, hok, hall, ?_⟩
  have hstored : stored (longJunk ++ requestFrame) = longJunk ++ requestFrame := rfl
  have hquiet : EOT ∉ longJunk ++ requestFrame.dropLast := by
    intro hmem
    rcases List.mem_append.mp hmem with hmem | hmem
    · rcases List.mem_cons.mp hmem with heq | hmem
      · exact absurd heq (by decide)
      · rcases mem_noise hmem with heq | heq <;> exact absurd heq (by decide)
    · exact absurd hmem (by decide)
  have hheld : held [] (stored (longJunk ++ requestFrame)).dropLast =
      some (longJunk ++ requestFrame.dropLast) := by
    rw [hstored, List.dropLast_append_of_ne_nil (ne_nil_of_isFrameCRCOK hok),
      held_quiet _ _ hquiet, List.nil_append]
  have hwhole : longJunk ++ requestFrame.dropLast ++ [EOT] = longJunk ++ requestFrame := by
    rw [List.append_assoc, ← eq_dropLast_concat hok]
  have hover : Overruns (longJunk ++ requestFrame.dropLast) requestFrame := by
    refine ⟨?_, ?_, ?_⟩
    · rw [hwhole]
      exact longJunk_not_frame
    · have hnoise : noise.length = 4047 := by
        rw [noise, List.length_append, List.length_replicate]
        rfl
      rw [hwhole, List.length_append, longJunk, List.length_cons, hnoise, hall]
      decide
    · have hnext : ∀ b ∈ noise, (b != SOH) = true := by
        intro b hb
        rcases mem_noise hb with rfl | rfl <;> decide
      rw [hwhole, longJunk, List.cons_append, List.drop_succ_cons, List.drop_zero,
        List.dropWhile_append_of_pos hnext]
      decide
  obtain ⟨q, hqf, hpacket⟩ :=
    receiveFrameFrom_of_overruns longJunk ⟨[], []⟩ [] hhead hok hheld hover
  rw [hpacket]
  rcases resync_longest q with ⟨hcand, -⟩ | ⟨hempty, -⟩
  · -- a good frame has nine bytes at least, so none is a proper part of this one
    rw [hqf] at hcand
    have hlen := length_ge_of_isFrameCRCOK hcand.2.2.2
    exact absurd (hcand.1.eq_of_length_le (by omega)) hcand.2.1
  · exact hempty

end Packet

end DeviceAgent
