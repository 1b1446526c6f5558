import DeviceAgent.ConfigRoundTrip
import DeviceAgent.Foundations.Periods

/-!
# Reading and decoding a request

`main` admits every length up to 1024, negative ones too, and hands `fgets` one more.  The
length is a `long` and the size an `int`, which may hold something else.

The loop of `urldecode` ends when its cursor is `last`, and steps over three bytes at a
time.  Here it runs on addresses, so that a cursor behind `last` goes on for ever.  It
meets `last` exactly if the value consists of whole units, plain bytes and `%` with two
bytes behind it, and if there is a byte between the key and the value.
-/

namespace DeviceAgent

open Function

/-! ## The request in memory -/

/-- What `fgets` stores for a size of `room + 1`, without the terminator. -/
def fgets : ℕ → List Byte → List Byte
  | 0, _ => []
  | _, [] => []
  | room + 1, b :: rest => if b = LF then [b] else b :: fgets room rest

/-- The size that `fgets` gets for this length. -/
def fgetsSize (len : ℤ) : ℤ := Periods.wrap 32 (len + 1)

/-- What `main` reads into `buf`, without the terminator; nothing for a size that is not
positive. -/
def readBody (len : ℤ) (request : List Byte) : List Byte :=
  fgets ((fgetsSize len).toNat - 1) request

/-- The bytes of a text stand in memory from `address` on. -/
def HoldsAt (mem : ℕ → Byte) : ℕ → List Byte → Prop
  | _, [] => True
  | address, b :: rest => mem address = b ∧ HoldsAt mem (address + 1) rest

theorem fgets_of_notMem (room : ℕ) {request : List Byte} (h : LF ∉ request) :
    fgets room request = request.take room := by
  induction request generalizing room with
  | nil => cases room <;> rfl
  | cons b rest ih =>
      obtain ⟨hb, hrest⟩ := not_or.mp (mt List.mem_cons.mpr h)
      cases room with
      | zero => rfl
      | succ room => rw [fgets, if_neg fun heq ↦ hb heq.symm, ih room hrest, List.take_succ_cons]

theorem length_fgets_le (room : ℕ) (request : List Byte) : (fgets room request).length ≤ room := by
  induction request generalizing room with
  | nil => cases room <;> simp [fgets]
  | cons b rest ih =>
      cases room with
      | zero => simp [fgets]
      | succ room =>
          rw [fgets]
          split
          · simp
          · simpa using ih room

/-- A size beyond `room` is used up only by a request that is long enough and has no line
break before. -/
theorem length_fgets_iff {room size : ℕ} (hsize : room < size) (request : List Byte) :
    (fgets size request).length ≤ room ↔
      request.length ≤ room ∨ LF ∈ request.take room := by
  obtain ⟨size, rfl⟩ : ∃ m, size = m + 1 := ⟨size - 1, by omega⟩
  induction request generalizing room size with
  | nil => simp [fgets]
  | cons b rest ih =>
      by_cases hb : b = LF
      · cases room with
        | zero => simp [fgets, hb]
        | succ room => simp [fgets, hb]
      · cases room with
        | zero => simp [fgets, hb]
        | succ room =>
            have hb' : LF ≠ b := fun h ↦ hb h.symm
            obtain ⟨size, rfl⟩ : ∃ m, size = m + 1 := ⟨size - 1, by omega⟩
            simpa [fgets, hb, hb'] using ih size (by omega)

/-- The array has room for what is read exactly if the size is not above its own, or the
request ends in it. -/
theorem length_readBody_iff (len : ℤ) (request : List Byte) :
    (readBody len request).length + 1 ≤ 1024 ↔
      fgetsSize len ≤ 1024 ∨ request.length ≤ 1023 ∨ LF ∈ request.take 1023 := by
  have hroom := length_fgets_le ((fgetsSize len).toNat - 1) request
  unfold readBody
  by_cases hsize : fgetsSize len ≤ 1024
  · exact iff_of_true (by omega) (Or.inl hsize)
  · rw [or_iff_right hsize,
      ← length_fgets_iff (show 1023 < (fgetsSize len).toNat - 1 + 1 - 1 by omega)]
    exact Nat.succ_le_succ_iff

theorem HoldsAt.right {mem : ℕ → Byte} {address : ℕ} {s t : List Byte}
    (h : HoldsAt mem address (s ++ t)) : HoldsAt mem (address + s.length) t := by
  induction s generalizing address with
  | nil => exact h
  | cons b s ih =>
      rw [List.length_cons, ← Nat.add_assoc, Nat.add_right_comm]
      exact ih h.2

theorem HoldsAt.left {mem : ℕ → Byte} {address : ℕ} {s t : List Byte}
    (h : HoldsAt mem address (s ++ t)) : HoldsAt mem address s := by
  induction s generalizing address with
  | nil => trivial
  | cons b s ih => exact ⟨h.1, ih h.2⟩

/-! ## The decoder -/

/-- The cursor of `urldecode` and what it has written. -/
structure Decoder where
  src : ℕ
  dest : List Byte

namespace Decoder

/-- One pass of the loop; it rests when the cursor is `last`.  `code` is what `sscanf`
makes of the text at an address. -/
def step (mem code : ℕ → Byte) (last : ℕ) (d : Decoder) : Decoder :=
  if d.src = last then d
  else if mem d.src = PLUS then ⟨d.src + 1, d.dest ++ [SPACE]⟩
  else if mem d.src = PERCENT then ⟨d.src + 2 + 1, d.dest ++ [code (d.src + 1)]⟩
  else ⟨d.src + 1, d.dest ++ [mem d.src]⟩

variable {mem code : ℕ → Byte} {last : ℕ}

theorem src_le_step (d : Decoder) : d.src ≤ (d.step mem code last).src := by
  unfold step
  split_ifs
  · exact le_rfl
  · exact Nat.le_succ _
  · exact Nat.le_add_right _ 3
  · exact Nat.le_succ _

theorem src_le_iterate (n : ℕ) (d : Decoder) : d.src ≤ ((step mem code last)^[n] d).src := by
  induction n generalizing d with
  | zero => exact le_rfl
  | succ n ih => exact (src_le_step d).trans (ih _)

theorem step_percent {d : Decoder} (hrun : d.src ≠ last) (hmem : mem d.src = PERCENT) :
    d.step mem code last = ⟨d.src + 3, d.dest ++ [code (d.src + 1)]⟩ := by
  have hplus : PERCENT ≠ PLUS := by decide
  rw [step, if_neg hrun, hmem, if_neg hplus, if_pos rfl]

/-- A byte that is not `%` is one pass and one byte written. -/
theorem step_plain {d : Decoder} (hrun : d.src ≠ last) (hmem : mem d.src ≠ PERCENT) :
    ∃ b, d.step mem code last = ⟨d.src + 1, d.dest ++ [b]⟩ := by
  rw [step, if_neg hrun, if_neg hmem]
  split
  · exact ⟨SPACE, rfl⟩
  · exact ⟨mem d.src, rfl⟩

end Decoder

/-- A value of plain bytes and of `%` with two bytes behind it. -/
inductive Whole : List Byte → Prop
  | nil : Whole []
  | plain {b : Byte} {rest : List Byte} (hb : b ≠ PERCENT) (hrest : Whole rest) :
      Whole (b :: rest)
  | escape {high low : Byte} {rest : List Byte} (hrest : Whole rest) :
      Whole (PERCENT :: high :: low :: rest)

namespace Decoder

variable {mem code : ℕ → Byte} {last : ℕ}

/-- A loop that meets its end was given whole units. -/
theorem whole_of_ends {value : List Byte} {d : Decoder} {n : ℕ} (hmem : HoldsAt mem d.src value)
    (hlast : d.src + value.length = last) (hends : ((step mem code last)^[n] d).src = last) :
    Whole value := by
  induction n generalizing value d with
  | zero =>
      have hsrc : d.src = last := hends
      obtain rfl : value = [] := List.length_eq_zero_iff.mp (by omega)
      exact .nil
  | succ n ih =>
      cases value with
      | nil => exact .nil
      | cons b rest =>
          rw [List.length_cons] at hlast
          have hrun : d.src ≠ last := by omega
          rw [iterate_succ_apply] at hends
          by_cases hb : b = PERCENT
          · subst hb
            rw [step_percent hrun hmem.1] at hends
            -- with fewer than two bytes left the cursor is past the end for good
            have hpast : d.src + 3 ≤ ((step mem code last)^[n]
                ⟨d.src + 3, d.dest ++ [code (d.src + 1)]⟩).src :=
              src_le_iterate n ⟨d.src + 3, d.dest ++ [code (d.src + 1)]⟩
            rw [hends] at hpast
            rcases rest with _ | ⟨high, _ | ⟨low, rest⟩⟩
            · simp at hlast
              omega
            · simp at hlast
              omega
            · rw [List.length_cons, List.length_cons] at hlast
              exact .escape (ih (d := ⟨d.src + 3, _⟩) hmem.2.2.2 (by dsimp only; omega) hends)
          · obtain ⟨c, hstep⟩ : ∃ c, d.step mem code last = ⟨d.src + 1, d.dest ++ [c]⟩ :=
              step_plain hrun (hmem.1 ▸ hb)
            rw [hstep] at hends
            exact .plain hb (ih (d := ⟨d.src + 1, _⟩) hmem.2 (by dsimp only; omega) hends)

/-- Whole units bring the cursor to the end, and each of them is one byte written. -/
theorem ends_of_whole {value : List Byte} (hwhole : Whole value) {d : Decoder}
    (hmem : HoldsAt mem d.src value) (hlast : d.src + value.length = last) :
    ∃ n, ((step mem code last)^[n] d).src = last := by
  induction hwhole generalizing d with
  | nil => exact ⟨0, hlast⟩
  | @plain b rest hb _ ih =>
      rw [List.length_cons] at hlast
      obtain ⟨c, hstep⟩ : ∃ c, d.step mem code last = ⟨d.src + 1, d.dest ++ [c]⟩ :=
        step_plain (by omega) (hmem.1 ▸ hb)
      obtain ⟨n, hn⟩ := ih (d := ⟨d.src + 1, d.dest ++ [c]⟩) hmem.2 (by dsimp only; omega)
      exact ⟨n + 1, by rw [iterate_succ_apply, hstep, hn]⟩
  | @escape high low rest _ ih =>
      rw [List.length_cons, List.length_cons, List.length_cons] at hlast
      obtain ⟨n, hn⟩ := ih (d := ⟨d.src + 3, d.dest ++ [code (d.src + 1)]⟩) hmem.2.2.2
        (by dsimp only; omega)
      exact ⟨n + 1, by rw [iterate_succ_apply, step_percent (by omega) hmem.1, hn]⟩

theorem inside_of_whole {value : List Byte} (hwhole : Whole value) {d : Decoder}
    (hmem : HoldsAt mem d.src value) (hlast : d.src + value.length = last) (n : ℕ) :
    ((step mem code last)^[n] d).src ≤ last ∧
      ((step mem code last)^[n] d).dest.length ≤ d.dest.length + value.length := by
  induction n generalizing value d with
  | zero => exact ⟨by rw [← hlast]; exact Nat.le_add_right _ _, Nat.le_add_right _ _⟩
  | succ n ih =>
      rw [iterate_succ_apply]
      cases hwhole with
      | nil =>
          have hrest : d.step mem code last = d := if_pos hlast
          rw [hrest]
          exact ih .nil hmem hlast
      | @plain b rest hb hrest =>
          rw [List.length_cons] at hlast
          obtain ⟨c, hstep⟩ : ∃ c, d.step mem code last = ⟨d.src + 1, d.dest ++ [c]⟩ :=
            step_plain (by omega) (hmem.1 ▸ hb)
          rw [hstep]
          have hnext := ih (d := ⟨d.src + 1, d.dest ++ [c]⟩) hrest hmem.2 (by dsimp only; omega)
          simp only [List.length_append, List.length_cons, List.length_nil] at hnext ⊢
          omega
      | @escape high low rest hrest =>
          rw [List.length_cons, List.length_cons, List.length_cons] at hlast
          rw [step_percent (by omega) hmem.1]
          have hnext := ih (d := ⟨d.src + 3, d.dest ++ [code (d.src + 1)]⟩) hrest hmem.2.2.2
            (by dsimp only; omega)
          simp only [List.length_append, List.length_cons, List.length_nil] at hnext ⊢
          omega

end Decoder

/-! ## The decoder on texts

`urldecode` on a text is the loop with `scanCode` for `sscanf`. -/

def codeAt (mem : ℕ → Byte) (address : ℕ) : Byte := scanCode (mem address) (mem (address + 1))

theorem urldecode_plain {b : Byte} (hb : b ≠ PERCENT) (rest : List Byte) :
    urldecode (b :: rest) = (urldecode rest).map ((if b = PLUS then SPACE else b) :: ·) := by
  rw [urldecode.eq_def]
  simp only [if_neg hb]
  split_ifs <;> rfl

theorem urldecode_escape (high low : Byte) (rest : List Byte) :
    urldecode (PERCENT :: high :: low :: rest) =
      (urldecode rest).map (scanCode high low :: ·) := by
  have hplus : PERCENT ≠ PLUS := by decide
  rw [urldecode.eq_def]
  simp only [if_neg hplus, if_true]

theorem urldecode_isSome_of_whole {value : List Byte} (h : Whole value) :
    (urldecode value).isSome = true := by
  induction h with
  | nil => rfl
  | plain hb _ ih => rw [urldecode_plain hb, Option.isSome_map, ih]
  | escape _ ih => rw [urldecode_escape, Option.isSome_map, ih]

/-- What is decoded from a text is what the loop has written when it ends. -/
theorem urldecode_runs {mem : ℕ → Byte} {last : ℕ} {value out : List Byte} {d : Decoder}
    (hdecoded : urldecode value = some out) (hmem : HoldsAt mem d.src value)
    (hlast : d.src + value.length = last) :
    ∃ n, (Decoder.step mem (codeAt mem) last)^[n] d = ⟨last, d.dest ++ out⟩ := by
  have hpass : ∀ {d : Decoder} {c : Byte} {src : ℕ} {out : List Byte},
      d.step mem (codeAt mem) last = ⟨src, d.dest ++ [c]⟩ →
      (∃ n, (Decoder.step mem (codeAt mem) last)^[n] ⟨src, d.dest ++ [c]⟩ =
        ⟨last, d.dest ++ [c] ++ out⟩) →
      ∃ n, (Decoder.step mem (codeAt mem) last)^[n] d = ⟨last, d.dest ++ c :: out⟩ := by
    rintro d c src out hstep ⟨n, hn⟩
    refine ⟨n + 1, ?_⟩
    rw [iterate_succ_apply, hstep, hn, List.append_assoc, List.singleton_append]
  fun_induction urldecode value generalizing out d with
  | case1 =>
      obtain rfl : [] = out := Option.some.inj hdecoded
      exact ⟨0, by rw [List.append_nil, ← hlast]; rfl⟩
  | case2 rest ih =>
      obtain ⟨out, hrest, rfl⟩ := Option.map_eq_some_iff.mp hdecoded
      rw [List.length_cons] at hlast
      refine hpass ?_ (ih (d := ⟨d.src + 1, _⟩) hrest hmem.2 (by dsimp only; omega))
      rw [Decoder.step, if_neg (by omega), if_pos hmem.1]
  | case3 high low rest hplus ih =>
      obtain ⟨out, hrest, rfl⟩ := Option.map_eq_some_iff.mp hdecoded
      rw [List.length_cons, List.length_cons, List.length_cons] at hlast
      have hcode : codeAt mem (d.src + 1) = scanCode high low := by
        rw [codeAt, hmem.2.1, hmem.2.2.1]
      refine hpass ?_ (ih (d := ⟨d.src + 3, _⟩) hrest hmem.2.2.2 (by dsimp only; omega))
      rw [Decoder.step_percent (by omega) hmem.1, hcode]
  | case4 rest hshort hplus => cases hdecoded
  | case5 b rest hplus hpercent ih =>
      obtain ⟨out, hrest, rfl⟩ := Option.map_eq_some_iff.mp hdecoded
      rw [List.length_cons] at hlast
      refine hpass ?_ (ih (d := ⟨d.src + 1, _⟩) hrest hmem.2 (by dsimp only; omega))
      rw [Decoder.step, if_neg (by omega), hmem.1, if_neg hplus, if_neg hpercent]

/-- A text at the beginning of memory, with zeros behind it. -/
def memoryOf (text : List Byte) (address : ℕ) : Byte := text.getD address NUL

theorem holdsAt_memoryOf (text : List Byte) : HoldsAt (memoryOf text) 0 text := by
  have hfrom : ∀ before text : List Byte,
      HoldsAt (memoryOf (before ++ text)) before.length text := by
    intro before text
    induction text generalizing before with
    | nil => trivial
    | cons b text ih =>
        have hrest := ih (before ++ [b])
        rw [List.append_assoc, List.singleton_append, List.length_append] at hrest
        exact ⟨by simp [memoryOf], hrest⟩
  exact hfrom [] text

theorem urldecode_isSome_iff {value : List Byte} :
    (urldecode value).isSome = true ↔ Whole value := by
  refine ⟨fun h ↦ ?_, urldecode_isSome_of_whole⟩
  obtain ⟨out, hout⟩ := Option.isSome_iff_exists.mp h
  have hmem := holdsAt_memoryOf value
  obtain ⟨n, hn⟩ := urldecode_runs (d := ⟨0, []⟩) hout hmem (Nat.zero_add _)
  exact Decoder.whole_of_ends (d := ⟨0, []⟩) hmem (Nat.zero_add _) (congrArg Decoder.src hn)

/-! ## The calls that `get_key` makes -/

/-- The cursor and the end with which `get_key` calls the decoder, from the start of
the text; there is no call if the text has no such key. -/
def keyRange (szKey szBuf : List Byte) : Option (ℕ × ℕ) :=
  (Text.search szKey szBuf).map fun found ↦
    (szBuf.length - found.length + szKey.length + 1,
      szBuf.length - found.length + (found.takeWhile (· != AMP)).length)

/-- The decoder ends with its cursor at the end, is never past it, and writes no more
than its buffer holds, the line break and the terminator included. -/
structure StaysInside (mem code : ℕ → Byte) (src last : ℕ) : Prop where
  ends : ∃ n, ((Decoder.step mem code last)^[n] ⟨src, []⟩).src = last
  inside : ∀ n, ((Decoder.step mem code last)^[n] ⟨src, []⟩).src ≤ last
  room : ∀ n, ((Decoder.step mem code last)^[n] ⟨src, []⟩).dest.length + 2 ≤ 1024

/-- The text behind the first occurrence of the key is one byte and a value of whole
units, up to the next `&`. -/
def KeyComplete (szKey szBuf : List Byte) : Prop :=
  ∀ found, Text.search szKey szBuf = some found →
    ∃ sep value, found.takeWhile (· != AMP) = szKey ++ sep :: value ∧ Whole value

theorem keyRange_of_search {szKey szBuf found : List Byte}
    (h : Text.search szKey szBuf = some found) :
    keyRange szKey szBuf =
      some (szBuf.length - found.length + szKey.length + 1,
        szBuf.length - found.length + (found.takeWhile (· != AMP)).length) := by
  rw [keyRange, h, Option.map_some]

theorem staysInside_iff {szKey szBuf found : List Byte}
    (hfound : Text.search szKey szBuf = some found) (hshort : szBuf.length ≤ 1023)
    {mem : ℕ → Byte} (hmem : HoldsAt mem 0 szBuf) (code : ℕ → Byte) :
    StaysInside mem code (szBuf.length - found.length + szKey.length + 1)
        (szBuf.length - found.length + (found.takeWhile (· != AMP)).length) ↔
      ∃ sep value, found.takeWhile (· != AMP) = szKey ++ sep :: value ∧ Whole value := by
  obtain ⟨⟨before, rfl⟩, hkey⟩ := Text.search_spec hfound
  have hstart : (before ++ found).length - found.length = before.length := by simp
  have hfield : found.takeWhile (· != AMP) <+: found := List.takeWhile_prefix _
  rw [hstart]
  generalize found.takeWhile (· != AMP) = text at hfield
  have hsegment : HoldsAt mem before.length text := by
    obtain ⟨more, rfl⟩ := hfield
    rw [← Nat.zero_add before.length]
    exact hmem.right.left
  have hvalue : ∀ {sep : Byte} {value : List Byte}, text = szKey ++ sep :: value →
      HoldsAt mem (before.length + szKey.length + 1) value ∧
        before.length + szKey.length + 1 + value.length = before.length + text.length := by
    rintro sep value rfl
    refine ⟨hsegment.right.2, ?_⟩
    rw [List.length_append, List.length_cons]
    omega
  constructor
  · intro h
    have hroom : before.length + szKey.length + 1 ≤ before.length + text.length := h.inside 0
    obtain ⟨tail, rfl⟩ : szKey <+: text :=
      List.prefix_of_prefix_length_le hkey hfield (by omega)
    cases tail with
    | nil =>
        rw [List.append_nil] at hroom
        omega
    | cons sep value =>
        obtain ⟨hholds, hlast⟩ := hvalue rfl
        obtain ⟨n, hends⟩ := h.ends
        refine ⟨sep, value, rfl, ?_⟩
        exact Decoder.whole_of_ends (d := ⟨_, []⟩) hholds hlast hends
  · rintro ⟨sep, value, hsplit, hwhole⟩
    obtain ⟨hholds, hlast⟩ := hvalue hsplit
    have hinside : ∀ n, ((Decoder.step mem code (before.length + text.length))^[n]
          ⟨before.length + szKey.length + 1, []⟩).src ≤ before.length + text.length ∧
        ((Decoder.step mem code (before.length + text.length))^[n]
          ⟨before.length + szKey.length + 1, []⟩).dest.length ≤ 0 + value.length :=
      Decoder.inside_of_whole hwhole hholds hlast
    refine ⟨Decoder.ends_of_whole hwhole (d := ⟨_, []⟩) hholds hlast, fun n ↦ (hinside n).1,
      fun n ↦ ?_⟩
    have hwritten := (hinside n).2
    have hlong := hfield.length_le
    rw [List.length_append] at hshort
    omega

theorem takeWhile_key {szKey : List Byte} (hamp : AMP ∉ szKey) (rest : List Byte) :
    (szKey ++ rest).takeWhile (· != AMP) = szKey ++ rest.takeWhile (· != AMP) := by
  apply List.takeWhile_append_of_pos
  intro b hb
  exact bne_iff_ne.mpr (ne_of_mem_of_not_mem hb hamp)

/-- On a text that fits, `getKey` has a result exactly if the decoder stays inside. -/
theorem getKey_isSome_iff {szKey szBuf : List Byte} (hamp : AMP ∉ szKey)
    (hshort : szBuf.length ≤ 1023) :
    (getKey szKey szBuf).isSome = true ↔ KeyComplete szKey szBuf := by
  unfold getKey KeyComplete
  cases hfound : Text.search szKey szBuf with
  | none => simp
  | some found =>
      obtain ⟨hsuffix, rest, rfl⟩ := Text.search_spec hfound
      simp only [Option.some.injEq, forall_eq', takeWhile_key hamp, List.drop_left,
        List.append_cancel_left_eq]
      cases hvalue : rest.takeWhile (· != AMP) with
      | nil => simp
      | cons sep value =>
          have hroom : value.length + 2 ≤ 1024 := by
            have hrest := (List.takeWhile_prefix (· != AMP) (l := rest)).length_le
            have hlong := hsuffix.length_le
            rw [hvalue, List.length_cons] at hrest
            rw [List.length_append] at hlong
            omega
          have hunique : (∃ sep' value', sep :: value = sep' :: value' ∧ Whole value') ↔
              Whole value := by simp
          rw [hunique, ← urldecode_isSome_iff]
          dsimp only
          cases hdest : urldecode value with
          | none => rfl
          | some dest =>
              have hlength := length_urldecode_le hdest
              simp only [Option.bind_some, if_pos (show dest.length + 2 ≤ 1024 by omega),
                Option.isSome_some]

/-- Reading and decoding a request is safe exactly if the request does not fill the
array and the key is followed by a value of whole units. -/
theorem form_decoding_iff (len : ℤ) (request szKey : List Byte) (mem code : ℕ → Byte)
    (hmem : HoldsAt mem 0 (cString (readBody len request))) :
    ((readBody len request).length + 1 ≤ 1024 ∧
        ∀ src last, keyRange szKey (cString (readBody len request)) = some (src, last) →
          StaysInside mem code src last) ↔
      (fgetsSize len ≤ 1024 ∨ request.length ≤ 1023 ∨ LF ∈ request.take 1023) ∧
        KeyComplete szKey (cString (readBody len request)) := by
  rw [← length_readBody_iff]
  refine and_congr_right fun hroom ↦ ?_
  have hshort : (cString (readBody len request)).length ≤ 1023 :=
    (List.takeWhile_prefix _).length_le.trans (by omega)
  generalize cString (readBody len request) = szBuf at hmem hshort
  constructor
  · intro h found hfound
    exact (staysInside_iff hfound hshort hmem code).mp (h _ _ (keyRange_of_search hfound))
  · intro h src last hrange
    obtain ⟨found, hfound, hpair⟩ := Option.map_eq_some_iff.mp hrange
    obtain ⟨rfl, rfl⟩ := Prod.mk.inj hpair
    exact (staysInside_iff hfound hshort hmem code).mpr (h found hfound)

/-- The field of the access point, alone in a request. -/
def apnField (value : List Char) : List Byte := Key.APN ++ EQUALS :: ascii value

/-- `APN=a` with its own length. -/
theorem form_decoding_apn :
    HoldsAt (memoryOf (apnField ['a'])) 0 (cString (readBody 5 (apnField ['a']))) ∧
      (readBody 5 (apnField ['a'])).length + 1 ≤ 1024 ∧
        ∀ src last, keyRange Key.APN (cString (readBody 5 (apnField ['a']))) = some (src, last) →
          StaysInside (memoryOf (apnField ['a'])) (codeAt (memoryOf (apnField ['a'])))
            src last := by
  have htext : cString (readBody 5 (apnField ['a'])) = apnField ['a'] := by decide
  have hmem : HoldsAt (memoryOf (apnField ['a'])) 0 (cString (readBody 5 (apnField ['a']))) :=
    htext ▸ holdsAt_memoryOf _
  have hwhole : KeyComplete Key.APN (cString (readBody 5 (apnField ['a']))) :=
    (getKey_isSome_iff (by decide) (by decide)).mp (by decide)
  refine ⟨hmem, ?_⟩
  exact (form_decoding_iff 5 (apnField ['a']) Key.APN (memoryOf (apnField ['a']))
    (codeAt (memoryOf (apnField ['a']))) hmem).mpr ⟨Or.inl (by decide), hwhole⟩

/-- A decoder given less than whole units never meets its end. -/
theorem not_ends {value : List Byte} (hnot : urldecode value = none) {mem code : ℕ → Byte}
    {src last : ℕ} (hmem : HoldsAt mem src value) (hlast : src + value.length = last) :
    ¬ ∃ n, ((Decoder.step mem code last)^[n] ⟨src, []⟩).src = last := by
  rintro ⟨n, hends⟩
  have hwhole := Decoder.whole_of_ends (d := ⟨src, []⟩) hmem hlast hends
  rw [← urldecode_isSome_iff, hnot] at hwhole
  cases hwhole

theorem length_readBody_letters {len : ℤ} {size : ℕ} (hsize : fgetsSize len = size + 1) :
    (readBody len (List.replicate size 0x61#8)).length = size := by
  have hplain : LF ∉ List.replicate size 0x61#8 := fun hmem ↦
    absurd (List.eq_of_mem_replicate hmem) (by decide)
  have hroom : (fgetsSize len).toNat - 1 = size := by omega
  rw [readBody, hroom, fgets_of_notMem _ hplain, List.take_replicate, min_self,
    List.length_replicate]

/-- A request of 1024 bytes is admitted and its terminator stands behind the array; so is a
length that becomes a size of 2001; a value that ends in `%` or in `%4`, and a key without a
value, never meet their end. -/
theorem form_decoding_open_ends :
    ((1024 : ℤ) ≤ 1024 ∧ (readBody 1024 (List.replicate 1024 0x61#8)).length + 1 = 1025) ∧
      ((-4294965296 : ℤ) ≤ 1024 ∧
        (readBody (-4294965296) (List.replicate 2000 0x61#8)).length + 1 = 2001) ∧
      (keyRange Key.APN (apnField ['%']) = some (4, 5) ∧
        ¬ ∃ n, ((Decoder.step (memoryOf (apnField ['%'])) (codeAt (memoryOf (apnField ['%'])))
          5)^[n] ⟨4, []⟩).src = 5) ∧
      (keyRange Key.APN (apnField ['%', '4']) = some (4, 6) ∧
        ¬ ∃ n, ((Decoder.step (memoryOf (apnField ['%', '4']))
          (codeAt (memoryOf (apnField ['%', '4']))) 6)^[n] ⟨4, []⟩).src = 6) ∧
      (keyRange Key.APN Key.APN = some (4, 3) ∧
        ¬ ∃ n, ((Decoder.step (memoryOf Key.APN) (codeAt (memoryOf Key.APN)) 3)^[n]
          ⟨4, []⟩).src = 3) := by
  have hvalue : ∀ value : List Char, HoldsAt (memoryOf (apnField value)) 4 (ascii value) :=
    fun value ↦ (holdsAt_memoryOf (apnField value)).right.2
  refine ⟨⟨le_rfl, ?_⟩, ⟨by decide, ?_⟩, ⟨by decide, ?_⟩, ⟨by decide, ?_⟩, by decide, ?_⟩
  · rw [length_readBody_letters (by decide)]
  · rw [length_readBody_letters (by decide)]
  · exact not_ends (by decide) (hvalue ['%']) rfl
  · exact not_ends (by decide) (hvalue ['%', '4']) rfl
  · rintro ⟨n, hends⟩
    have hpast : 4 ≤ ((Decoder.step (memoryOf Key.APN) (codeAt (memoryOf Key.APN)) 3)^[n]
        ⟨4, []⟩).src := Decoder.src_le_iterate n ⟨4, []⟩
    rw [hends] at hpast
    exact absurd hpast (by decide)

end DeviceAgent
