import DeviceAgent.Receiver

/-!
# What `ReceiveFrameFrom` delivers

Soundness holds for every stream: whatever the overflow branch has thrown
away, a delivered packet is the end of what was consumed.  Below the overflow
limit the receiver is exact: in line it stops at the shortest acceptable
prefix, and at the end of data it takes the longest acceptable suffix.
-/

namespace DeviceAgent

open ReadResult

namespace Packet

/-! ## Soundness -/

/-- The receiver's promise when `consumed` was read and `unread` was still to
come before the terminating zero. -/
structure Delivers (consumed unread : List Byte) (tail : List ReadResult) (r : Received) :
    Prop where
  thrown : r.thrown = none
  packet : r.packet.strCache = [] ∨
    isFrameCRCOK r.packet.strCache = true ∧ r.packet.strCache <:+ consumed
  stopped : (r.rest = unread.map byte ++ zero :: tail ∧ r.packet.strCache ≠ [] ∧
      consumed.getLast? = some EOT) ∨
    (r.rest = tail ∧ unread = [])

/-- The buffer with the byte in hand is the end of what was consumed, and each
way out of the loop keeps that. -/
theorem collectFrame_delivers (used : List Byte) (p : Packet) (buff : Byte) (bs : List Byte)
    (tail : List ReadResult) (hp : p.strCache <:+ used) :
    ∃ more unread, bs = more ++ unread ∧
      Delivers (used ++ buff :: more) unread tail
        (collectFrame p buff (bs.map byte ++ zero :: tail)) := by
  induction bs generalizing used p buff with
  | nil =>
      have hstored := storeByte_suffix_append hp buff
      refine ⟨[], [], rfl, ?_⟩
      cases hval : (p.storeByte buff).1 with
      | true =>
          obtain ⟨heot, hok, heq⟩ := storeByte_of_accept hval
          rw [heq] at hstored
          rw [collectFrame_of_accept hval]
          exact ⟨rfl, Or.inr ⟨hok, hstored⟩,
            Or.inl ⟨rfl, ne_nil_of_isFrameCRCOK hok, by simp [heot]⟩⟩
      | false =>
          rw [List.map_nil, List.nil_append, collectFrame_of_zero hval]
          obtain ⟨hsuffix, hempty | hok⟩ := resync_sound (p.storeByte buff).2
          · exact ⟨rfl, Or.inl hempty, Or.inr ⟨rfl, rfl⟩⟩
          · exact ⟨rfl, Or.inr ⟨hok, hsuffix.trans hstored⟩, Or.inr ⟨rfl, rfl⟩⟩
  | cons b bs ih =>
      have hstored := storeByte_suffix_append hp buff
      cases hval : (p.storeByte buff).1 with
      | true =>
          obtain ⟨heot, hok, heq⟩ := storeByte_of_accept hval
          rw [heq] at hstored
          rw [collectFrame_of_accept hval]
          exact ⟨[], b :: bs, rfl, rfl, Or.inr ⟨hok, hstored⟩,
            Or.inl ⟨rfl, ne_nil_of_isFrameCRCOK hok, by simp [heot]⟩⟩
      | false =>
          obtain ⟨more, unread, rfl, hdel⟩ := ih (used ++ [buff]) (p.storeByte buff).2 b hstored
          refine ⟨b :: more, unread, rfl, ?_⟩
          rw [List.map_cons, List.cons_append, collectFrame_of_byte hval]
          simpa [List.append_assoc] using hdel

theorem scanFrame_delivers (used : List Byte) (p : Packet) (bs : List Byte)
    (tail : List ReadResult) (hp : p.strCache = []) :
    ∃ more unread, bs = more ++ unread ∧
      Delivers (used ++ more) unread tail (scanFrame p (bs.map byte ++ zero :: tail)) := by
  induction bs generalizing used with
  | nil => exact ⟨[], [], rfl, rfl, Or.inl hp, Or.inr ⟨rfl, rfl⟩⟩
  | cons b bs ih =>
      by_cases hb : b = SOH
      · obtain ⟨more, unread, rfl, hdel⟩ :=
          collectFrame_delivers used p b bs tail (by rw [hp]; exact List.nil_suffix)
        refine ⟨b :: more, unread, rfl, ?_⟩
        simpa only [List.map_cons, List.cons_append, scanFrame, if_pos hb] using hdel
      · obtain ⟨more, unread, rfl, hdel⟩ := ih (used ++ [b])
        refine ⟨b :: more, unread, rfl, ?_⟩
        simpa only [List.map_cons, List.cons_append, scanFrame, if_neg hb, List.append_assoc,
          List.nil_append] using hdel

/-- Soundness of the frame receiver on every stream that ends with a zero read,
overflows included: it throws nothing, it returns an empty packet or one that
passes the check, a returned packet is the end of exactly the bytes consumed,
and a packet accepted in line leaves everything after its last byte unread. -/
theorem receiveFrameFrom_sound (p : Packet) (bs : List Byte) (tail : List ReadResult) :
    ∃ consumed unread, bs = consumed ++ unread ∧
      Delivers consumed unread tail (p.receiveFrameFrom (bs.map byte ++ zero :: tail)) := by
  obtain ⟨consumed, unread, hbs, hdel⟩ := scanFrame_delivers [] p.clear bs tail rfl
  exact ⟨consumed, unread, hbs, by simpa only [List.nil_append, receiveFrameFrom] using hdel⟩

/-! ## Exactness below the overflow limit -/

theorem scanFrame_noise (p : Packet) (noise : List Byte) (hnoise : SOH ∉ noise)
    (input : List ReadResult) : scanFrame p (noise.map byte ++ input) = scanFrame p input := by
  induction noise with
  | nil => rfl
  | cons b noise ih =>
      have hb : ¬ b = SOH := fun h ↦ hnoise (by simp [h])
      rw [List.map_cons, List.cons_append, scanFrame, if_neg hb]
      exact ih (fun h ↦ hnoise (List.mem_cons_of_mem b h))

theorem collectFrame_of_shortest (p : Packet) (buff : Byte) (more : List Byte)
    (input : List ReadResult) (hok : isFrameCRCOK (p.strCache ++ buff :: more) = true)
    (hsize : (p.strCache ++ buff :: more).length ≤ 4057)
    (hbad : ∀ pre post, more = pre ++ post → post ≠ [] →
      isFrameCRCOK (p.strCache ++ buff :: pre) = false) :
    (collectFrame p buff (more.map byte ++ input)).thrown = none ∧
      (collectFrame p buff (more.map byte ++ input)).packet.strCache =
        p.strCache ++ buff :: more ∧
      (collectFrame p buff (more.map byte ++ input)).rest = input := by
  induction more generalizing p buff with
  | nil =>
      have hacc : (p.storeByte buff).1 = true := by rw [storeByte_of_ok hok]
      rw [collectFrame_of_accept hacc]
      exact ⟨rfl, rfl, rfl⟩
  | cons b more ih =>
      have hfirst := hbad [] (b :: more) rfl (List.cons_ne_nil b more)
      have hshort : p.strCache.length < 4056 := by
        simp only [List.length_append, List.length_cons] at hsize
        omega
      obtain ⟨hrej, hbuf⟩ := storeByte_of_short hfirst hshort
      have hnext := ih (p.storeByte buff).2 b
        (by simpa [hbuf] using hok) (by simpa [hbuf] using hsize)
        (by
          intro pre post hmore hpost
          have hpre := hbad (b :: pre) post (by rw [hmore]; rfl) hpost
          simpa [hbuf] using hpre)
      rw [List.map_cons, List.cons_append, collectFrame_of_byte hrej]
      simpa [hbuf] using hnext

theorem collectFrame_of_none (p : Packet) (buff : Byte) (more : List Byte)
    (tail : List ReadResult) (hsize : (p.strCache ++ buff :: more).length ≤ 4056)
    (hbad : ∀ pre post, more = pre ++ post →
      isFrameCRCOK (p.strCache ++ buff :: pre) = false) :
    ∃ q : Packet, q.strCache = p.strCache ++ buff :: more ∧
      collectFrame p buff (more.map byte ++ zero :: tail) = ⟨q.resync, tail, none⟩ := by
  induction more generalizing p buff with
  | nil =>
      obtain ⟨hrej, hbuf⟩ := storeByte_of_short (hbad [] [] rfl) (by simpa using hsize)
      exact ⟨(p.storeByte buff).2, hbuf, collectFrame_of_zero hrej tail⟩
  | cons b more ih =>
      have hshort : p.strCache.length < 4056 := by
        simp only [List.length_append, List.length_cons] at hsize
        omega
      obtain ⟨hrej, hbuf⟩ := storeByte_of_short (hbad [] (b :: more) rfl) hshort
      obtain ⟨q, hq, heq⟩ := ih (p.storeByte buff).2 b (by simpa [hbuf] using hsize)
        (by
          intro pre post hmore
          have hpre := hbad (b :: pre) post (by rw [hmore]; rfl)
          simpa [hbuf] using hpre)
      refine ⟨q, by simpa [hbuf] using hq, ?_⟩
      rw [List.map_cons, List.cons_append, collectFrame_of_byte hrej]
      exact heq

/-- Successive calls on one packet object: what each delivers, and what is left. -/
def receiveFrames : ℕ → Packet → List ReadResult → List (List Byte) × List ReadResult
  | 0, _, input => ([], input)
  | n + 1, p, input =>
      let r := p.receiveFrameFrom input
      let later := receiveFrames n r.packet r.rest
      (r.packet.strCache :: later.1, later.2)

/-- The bytes of a frame on the wire: it starts with `SOH`, passes the check, and
none of its proper prefixes does. -/
structure WireFrame (f : List Byte) : Prop where
  head : f.head? = some SOH
  ok : isFrameCRCOK f = true
  size : f.length ≤ 4057
  shortest : ∀ t, t <+: f → t ≠ f → isFrameCRCOK t = false

theorem receiveFrameFrom_wireFrame (p : Packet) {noise f : List Byte} (hnoise : SOH ∉ noise)
    (hf : WireFrame f) (input : List ReadResult) :
    (p.receiveFrameFrom (noise.map byte ++ (f.map byte ++ input))).thrown = none ∧
      (p.receiveFrameFrom (noise.map byte ++ (f.map byte ++ input))).packet.strCache = f ∧
      (p.receiveFrameFrom (noise.map byte ++ (f.map byte ++ input))).rest = input := by
  cases f with
  | nil => exact absurd hf.ok (by decide)
  | cons b more =>
      have hb : b = SOH := by simpa using hf.head
      have hcollect := collectFrame_of_shortest p.clear b more input hf.ok hf.size
        (by
          intro pre post hmore hpost
          apply hf.shortest
          · exact ⟨post, by rw [hmore]; rfl⟩
          · intro heq
            have hpre : pre = more := (List.cons.inj heq).2
            rw [← hpre] at hmore
            exact hpost (List.append_right_eq_self.mp hmore.symm))
      unfold receiveFrameFrom
      rw [scanFrame_noise _ _ hnoise, List.map_cons, List.cons_append, scanFrame, if_pos hb]
      exact hcollect

theorem receiveFrames_flatten (frames : List (List Byte)) (hframes : ∀ f ∈ frames, WireFrame f)
    (p : Packet) (input : List ReadResult) :
    receiveFrames frames.length p (frames.flatten.map byte ++ input) = (frames, input) := by
  induction frames generalizing p with
  | nil => rfl
  | cons f frames ih =>
      have hquiet : SOH ∉ ([] : List Byte) := by simp
      have hfirst := receiveFrameFrom_wireFrame p hquiet (hframes f (by simp))
        (frames.flatten.map byte ++ input)
      obtain ⟨-, hpacket, hrest⟩ := hfirst
      rw [List.length_cons, receiveFrames, List.flatten_cons, List.map_append, List.append_assoc]
      simp only [List.map_nil, List.nil_append] at hpacket hrest
      rw [hpacket, hrest, ih (fun g hg ↦ hframes g (List.mem_cons_of_mem f hg))]

theorem exists_shortest_prefix {s t : List Byte} (hts : t <+: s) (hok : isFrameCRCOK t = true) :
    ∃ u, u <+: s ∧ isFrameCRCOK u = true ∧
      ∀ v, v <+: s → isFrameCRCOK v = true → u.length ≤ v.length := by
  obtain ⟨n, hn⟩ : ∃ n, n = t.length := ⟨_, rfl⟩
  induction n using Nat.strong_induction_on generalizing t with
  | _ n ih =>
      by_cases hmin : ∀ v, v <+: s → isFrameCRCOK v = true → t.length ≤ v.length
      · exact ⟨t, hts, hok, hmin⟩
      · push Not at hmin
        obtain ⟨v, hvs, hvok, hlt⟩ := hmin
        exact ih v.length (by omega) hvs hvok rfl

theorem wireFrame_of_shortest {s u : List Byte} (hhead : s.head? = some SOH) (hus : u <+: s)
    (hok : isFrameCRCOK u = true) (hsize : u.length ≤ 4057)
    (hmin : ∀ v, v <+: s → isFrameCRCOK v = true → u.length ≤ v.length) : WireFrame u := by
  refine ⟨?_, hok, hsize, ?_⟩
  · obtain ⟨rest, rfl⟩ := hus
    rw [List.head?_append_of_ne_nil _ (ne_nil_of_isFrameCRCOK hok)] at hhead
    exact hhead
  · intro t htu hne
    by_contra hokt
    have hle := hmin t (htu.trans hus) (by simpa using hokt)
    exact hne (htu.eq_of_length (le_antisymm htu.length_le hle))

/-- The frame receiver below the overflow limit.  After noise without `SOH`:
the shortest acceptable prefix of at most 4057 bytes is returned and nothing
after it is read, so that a concatenation of frames comes back frame by frame;
and when no prefix of at most 4056 bytes is acceptable, the end of data yields
the longest acceptable proper suffix, or the empty packet. -/
theorem receiveFrameFrom_exact :
    (∀ (p : Packet) (noise s : List Byte) (tail : List ReadResult), SOH ∉ noise →
      s.head? = some SOH → (∃ t, t <+: s ∧ t.length ≤ 4057 ∧ isFrameCRCOK t = true) →
      ∃ t unread, s = t ++ unread ∧ isFrameCRCOK t = true ∧
        (∀ v, v <+: s → isFrameCRCOK v = true → t.length ≤ v.length) ∧
        (p.receiveFrameFrom ((noise ++ s).map byte ++ tail)).thrown = none ∧
        (p.receiveFrameFrom ((noise ++ s).map byte ++ tail)).packet.strCache = t ∧
        (p.receiveFrameFrom ((noise ++ s).map byte ++ tail)).rest =
          unread.map byte ++ tail) ∧
    (∀ (p : Packet) (frames : List (List Byte)) (tail : List ReadResult),
      (∀ f ∈ frames, WireFrame f) →
      receiveFrames frames.length p (frames.flatten.map byte ++ tail) = (frames, tail)) ∧
    (∀ (p : Packet) (noise s : List Byte) (tail : List ReadResult), SOH ∉ noise →
      s.head? = some SOH → s.length ≤ 4056 →
      (∀ t, t <+: s → isFrameCRCOK t = false) →
      (p.receiveFrameFrom ((noise ++ s).map byte ++ zero :: tail)).thrown = none ∧
      (p.receiveFrameFrom ((noise ++ s).map byte ++ zero :: tail)).rest = tail ∧
      ((Candidate s (p.receiveFrameFrom ((noise ++ s).map byte ++ zero :: tail)).packet.strCache ∧
          ∀ t, Candidate s t → t.length ≤
            (p.receiveFrameFrom ((noise ++ s).map byte ++ zero :: tail)).packet.strCache.length) ∨
        ((p.receiveFrameFrom ((noise ++ s).map byte ++ zero :: tail)).packet.strCache = [] ∧
          ∀ t, ¬ Candidate s t))) := by
  refine ⟨?_, ?_, ?_⟩
  · rintro p noise s tail hnoise hhead ⟨t₀, ht₀, hsize₀, hok₀⟩
    obtain ⟨t, hts, hok, hmin⟩ := exists_shortest_prefix ht₀ hok₀
    have hsize : t.length ≤ 4057 := (hmin t₀ ht₀ hok₀).trans hsize₀
    have hwire := wireFrame_of_shortest hhead hts hok hsize hmin
    obtain ⟨unread, rfl⟩ := hts
    refine ⟨t, unread, rfl, hok, hmin, ?_⟩
    have hrecv := receiveFrameFrom_wireFrame p hnoise hwire (unread.map byte ++ tail)
    simpa only [List.map_append, List.append_assoc] using hrecv
  · intro p frames tail hframes
    exact receiveFrames_flatten frames hframes p tail
  · intro p noise s tail hnoise hhead hsize hbad
    cases s with
    | nil => simp at hhead
    | cons b more =>
        have hb : b = SOH := by simpa using hhead
        obtain ⟨q, hq, heq⟩ := collectFrame_of_none p.clear b more tail hsize
          (by
            intro pre post hmore
            exact hbad (b :: pre) ⟨post, by rw [hmore]; rfl⟩)
        have hrecv : p.receiveFrameFrom ((noise ++ b :: more).map byte ++ zero :: tail) =
            ⟨q.resync, tail, none⟩ := by
          rw [List.map_append, List.append_assoc, receiveFrameFrom, scanFrame_noise _ _ hnoise,
            List.map_cons, List.cons_append, scanFrame, if_pos hb]
          exact heq
        rw [hrecv]
        refine ⟨rfl, rfl, ?_⟩
        have hbuf : q.strCache = b :: more := hq
        rw [← hbuf]
        exact resync_longest q

/-- The shortest frame there is: a command word without further content. -/
def requestFrame : List Byte := ((Packet.mk [] []).buildPacket [0x72#8, 0x61#8] 0x01#8).strCache

theorem wireFrame_requestFrame : WireFrame requestFrame := by
  refine ⟨by decide +kernel, by decide +kernel, by decide +kernel, fun t ht hne ↦ ?_⟩
  by_contra hok
  have hlong := length_ge_of_isFrameCRCOK (Bool.eq_true_of_not_eq_false hok)
  exact hne (ht.eq_of_length (le_antisymm ht.length_le hlong))

theorem receiveFrameFrom_exact_requests :
    receiveFrames 2 ⟨[], []⟩ ([requestFrame, requestFrame].flatten.map byte ++ [zero]) =
      ([requestFrame, requestFrame], [zero]) :=
  receiveFrameFrom_exact.2.1 ⟨[], []⟩ [requestFrame, requestFrame] [zero]
    (by simp [wireFrame_requestFrame])

end Packet

end DeviceAgent
