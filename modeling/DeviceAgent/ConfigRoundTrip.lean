import DeviceAgent.ConfigForm

/-!
# Saving and loading the configuration

For a submission of all fifteen fields with values of one line each, the getters
give back what was submitted exactly if every key is met first in its own field,
or behind letters that stand for the same value; except that the getter of the
signal level reads a key that is never written.
-/

namespace DeviceAgent

def CR : Byte := 0x0d#8

/-- A submission of the form in which every field is filled in, once. -/
structure Submission where
  fields : List (FormKey × List Byte)
  once : (fields.map Prod.fst).Perm FormKey.all
  filled : ∀ f ∈ fields, f.2 ≠ []
  plain : ∀ f ∈ fields, LF ∉ f.2 ∧ CR ∉ f.2 ∧ NUL ∉ f.2
  short : (body fields).length < 1024

/-! ## Decoding from the middle of a value -/

theorem urldecode_unreserved_append {cut : List Byte} (h : ∀ b ∈ cut, unreserved b = true)
    (t : List Byte) : urldecode (cut ++ t) = (urldecode t).map (cut ++ ·) := by
  induction cut with
  | nil => simp
  | cons b cut ih =>
      rw [List.cons_append, urldecode_unreserved (h b List.mem_cons_self),
        ih fun c hc ↦ h c (List.mem_cons_of_mem b hc), Option.map_map]
      rfl

/-- Behind its first byte an encoded byte has only digits. -/
theorem unreserved_of_encodeByte {b : Byte} {before cut : List Byte}
    (h : encodeByte b = before ++ cut) (hbefore : before ≠ []) :
    ∀ c ∈ cut, unreserved c = true := by
  obtain ⟨a, before, rfl⟩ := List.exists_cons_of_ne_nil hbefore
  obtain ⟨hhigh, hlow⟩ := unreserved_hexDigit b
  have htail : ∀ c ∈ (encodeByte b).tail, unreserved c = true := by
    unfold encodeByte
    split
    · simp
    · split
      · simp
      · simp [hhigh, hlow]
  intro c hc
  refine htail c ?_
  rw [h]
  exact List.mem_append_right before hc

/-- From any place of an encoded value the decoder gets some letters of an encoded
byte and then a rest of the value. -/
theorem urldecode_suffix {v src : List Byte} (h : src <:+ encode v) :
    ∃ cut rest, urldecode src = some (cut ++ rest) ∧ (∀ b ∈ cut, unreserved b = true) ∧
      rest <:+ v := by
  induction v generalizing src with
  | nil =>
      obtain rfl : src = [] := List.suffix_nil.mp h
      exact ⟨[], [], rfl, by simp, List.suffix_refl []⟩
  | cons b v ih =>
      obtain ⟨before, hbefore⟩ := h
      rw [encode_cons] at hbefore
      rcases List.append_eq_append_iff.mp hbefore with ⟨cut, hbyte, rfl⟩ | ⟨gap, -, hrest⟩
      · rcases eq_or_ne before [] with rfl | hne
        · refine ⟨[], b :: v, ?_, by simp, List.suffix_refl _⟩
          rw [List.nil_append] at hbyte
          rw [← hbyte, ← encode_cons, urldecode_encode]
          rfl
        · have hcut := unreserved_of_encodeByte hbyte hne
          refine ⟨cut, v, ?_, hcut, List.suffix_cons b v⟩
          rw [urldecode_unreserved_append hcut, urldecode_encode]
          rfl
      · obtain ⟨cut, rest, hdecode, hcut, hsuffix⟩ := ih ⟨gap, hrest.symm⟩
        exact ⟨cut, rest, hdecode, hcut, hsuffix.trans (List.suffix_cons b v)⟩

theorem length_urldecode_le {src dest : List Byte} (h : urldecode src = some dest) :
    dest.length ≤ src.length := by
  fun_induction urldecode src generalizing dest with
  | case1 =>
      obtain rfl := Option.some.inj h
      exact le_rfl
  | case2 rest ih =>
      obtain ⟨d, hd, rfl⟩ := Option.map_eq_some_iff.mp h
      exact Nat.succ_le_succ (ih hd)
  | case3 high low rest hplus ih =>
      obtain ⟨d, hd, rfl⟩ := Option.map_eq_some_iff.mp h
      have := ih hd
      simp only [List.length_cons]
      omega
  | case4 => cases h
  | case5 b rest hplus hpercent ih =>
      obtain ⟨d, hd, rfl⟩ := Option.map_eq_some_iff.mp h
      exact Nat.succ_le_succ (ih hd)

/-! ## Where a value comes from -/

theorem behind_spec {k : FormKey} {fields : List (FormKey × List Byte)} {text : List Byte}
    (h : behind k fields = some text) :
    ∃ f ∈ fields, k.szKey.length + text.length ≤ (field f).length ∧
      (text = EQUALS :: encode f.2 ∨ text <:+ encode f.2) := by
  induction fields with
  | nil => cases h
  | cons f rest ih =>
      rw [behind] at h
      split at h
      · rename_i hk
        obtain rfl := Option.some.inj h
        refine ⟨f, List.mem_cons_self, ?_, Or.inl rfl⟩
        simp [field, hk]
      · cases hf : Text.search k.szKey (encode f.2) with
        | none =>
            rw [hf, Option.map_none, Option.none_or] at h
            obtain ⟨g, hg, hspec⟩ := ih h
            exact ⟨g, List.mem_cons_of_mem f hg, hspec⟩
        | some found =>
            rw [hf, Option.map_some, Option.some_or] at h
            obtain rfl := Option.some.inj h
            obtain ⟨hsuffix, hprefix⟩ := Text.search_spec hf
            refine ⟨f, List.mem_cons_self, ?_, Or.inr ?_⟩
            · have hfound := hsuffix.length_le
              have hkey := hprefix.length_le
              simp only [field, List.length_append, List.length_cons, List.length_drop]
              omega
            · exact (List.drop_suffix _ _).trans hsuffix

theorem length_fields_le_body (fields : List (FormKey × List Byte)) :
    fields.length ≤ (body fields).length := by
  have hpos : ∀ f : FormKey × List Byte, 1 ≤ (field f).length := by
    intro f
    simp only [field, List.length_append, List.length_cons]
    omega
  induction fields with
  | nil => exact le_rfl
  | cons f rest ih =>
      cases rest with
      | nil => exact hpos f
      | cons g rest =>
          have hone := hpos f
          simp only [body, List.length_append, List.length_cons] at ih ⊢
          omega

theorem length_field_le {f : FormKey × List Byte} {fields : List (FormKey × List Byte)}
    (hf : f ∈ fields) : (field f).length + (fields.length - 1) ≤ (body fields).length := by
  induction fields with
  | nil => cases hf
  | cons g rest ih =>
      cases rest with
      | nil =>
          obtain rfl := List.mem_singleton.mp hf
          exact le_rfl
      | cons g' rest =>
          have hrest := length_fields_le_body (g' :: rest)
          simp only [body, List.length_append, List.length_cons] at ih hrest ⊢
          rcases List.mem_cons.mp hf with rfl | hf
          · omega
          · have hle := ih hf
            omega

namespace Submission

variable (sub : Submission)

theorem complete : Complete sub.fields := fun k ↦ sub.once.mem_iff.mpr k.mem_all

theorem length_fields : sub.fields.length = 15 := by
  rw [← List.length_map Prod.fst, sub.once.length_eq]
  rfl

/-- What is decoded for a key makes one line of the file. -/
theorem decoded_plain {k : FormKey} {c : Byte} {src : List Byte}
    (h : behind k sub.fields = some (c :: src)) :
    ∃ dest, urldecode src = some dest ∧ Plain k dest ∧ decoded k sub.fields = some dest := by
  obtain ⟨f, hf, hlen, hsource⟩ := behind_spec h
  have hsuffix : src <:+ encode f.2 := by
    rcases hsource with heq | hsuffix
    · rw [(List.cons.inj heq).2]
    · exact (List.suffix_cons c src).trans hsuffix
  obtain ⟨cut, rest, hdest, hcut, hrest⟩ := urldecode_suffix hsuffix
  obtain ⟨hbreak, -, hnul⟩ := sub.plain f hf
  have hfree : ∀ b : Byte, unreserved b = false → b ∉ f.2 → b ∉ cut ++ rest := by
    intro b hb hvalue hmem
    rcases List.mem_append.mp hmem with hmem | hmem
    · exact unreserved_ne (hcut b hmem) hb rfl
    · exact hvalue (hrest.subset hmem)
  have hroom : k.szKey.length + (cut ++ rest).length + 2 ≤ 1023 := by
    have hfit := length_field_le hf
    have hshort := sub.short
    have hdecode := length_urldecode_le hdest
    rw [sub.length_fields] at hfit
    rw [List.length_cons] at hlen
    omega
  refine ⟨cut ++ rest, hdest, ⟨?_, ?_, hroom⟩, ?_⟩
  · exact hfree LF (by decide) hbreak
  · exact hfree NUL (by decide) hnul
  · have hlimit : (cut ++ rest).length ≤ 1022 := by omega
    simp only [decoded, h, Option.bind_some, hdest, if_pos hlimit]

theorem decoded_eq_none_iff (k : FormKey) :
    decoded k sub.fields = none ↔ behind k sub.fields = some [] := by
  obtain ⟨text, htext⟩ := Option.isSome_iff_exists.mp (behind_isSome (sub.complete k))
  cases text with
  | nil => simp [decoded, htext]
  | cons c src =>
      obtain ⟨dest, -, -, hdest⟩ := sub.decoded_plain htext
      simp [hdest, htext]

end Submission

/-- The value of a field comes back: the text behind the first occurrence of its
key, one byte further on, decodes to the value (or to the same number).  The value
of `MIN_SINGAL` is written under a key that no getter reads, so it must be the
default; still the decoder has to come to its end there. -/
def ComesBack (large : ℤ → BitVec 32) (fields : List (FormKey × List Byte))
    (f : FormKey × List Byte) : Prop :=
  if f.1 = .minSingal then behind f.1 fields ≠ some [] ∧ atoi large f.2 = 45
  else ∃ c src dest, behind f.1 fields = some (c :: src) ∧ urldecode src = some dest ∧
    f.1.setting.value large (some dest) = f.1.setting.value large (some f.2)

theorem minSignalLevel_key (k : FormKey) : Setting.minSignalLevel.key ≠ k.szKey := by
  cases k <;> decide

namespace Submission

variable (sub : Submission) (below : ℕ) (large : ℤ → BitVec 32)

/-- If the decoder comes to its end for every key, a getter returns the decoded
value of its key, and that of the signal level its default. -/
theorem saved_setting {dest : FormKey → List Byte}
    (hdest : ∀ k, decoded k sub.fields = some (dest k)) (hplain : ∀ k, Plain k (dest k))
    (k : FormKey) :
    saved below large k.setting sub.fields =
      some (k.setting.value large (if k = .minSingal then none else some (dest k))) := by
  rw [saved_eq_some below large k.setting sub.complete hdest]
  split
  · rename_i hk
    rw [hk]
    exact congrArg (fun found ↦ some (Setting.minSignalLevel.value large found))
      (foundIn_plain_eq_none below hplain (Setting.isName_key _) minSignalLevel_key)
  · rename_i hk
    rw [FormKey.setting_key hk, foundIn_plain below hplain k]

/-- Every getter returns what was submitted for its key exactly if every value
comes back. -/
theorem settings_saved_iff :
    (∀ f ∈ sub.fields, saved below large f.1.setting sub.fields =
        some (f.1.setting.value large (some f.2))) ↔
      ∀ f ∈ sub.fields, ComesBack large sub.fields f := by
  by_cases hends : ∀ k, behind k sub.fields ≠ some []
  · -- the file is written, and the two sides agree field by field
    have hread : ∀ k, ∃ c src dest, behind k sub.fields = some (c :: src) ∧
        urldecode src = some dest ∧ Plain k dest ∧ decoded k sub.fields = some dest := by
      intro k
      obtain ⟨text, htext⟩ := Option.isSome_iff_exists.mp (behind_isSome (sub.complete k))
      obtain ⟨c, src, rfl⟩ := List.exists_cons_of_ne_nil fun hnil ↦ hends k (hnil ▸ htext)
      obtain ⟨dest, hspec⟩ := sub.decoded_plain htext
      exact ⟨c, src, dest, htext, hspec⟩
    choose c src dest hbehind hdecode hplain hdest using hread
    refine forall₂_congr fun f _ ↦ ?_
    rw [sub.saved_setting below large hdest hplain, ComesBack, Option.some.injEq]
    split
    · rename_i hk
      have hnumber : Value.number 45 = .number (atoi large f.2) ↔ atoi large f.2 = 45 := by
        rw [Value.number.injEq, eq_comm]
      rw [hk]
      exact hnumber.trans (iff_and_self.mpr fun _ ↦ hends _)
    · constructor
      · intro heq
        exact ⟨c f.1, src f.1, dest f.1, hbehind f.1, hdecode f.1, heq⟩
      · rintro ⟨c', src', dest', hbehind', hdecode', heq⟩
        obtain ⟨rfl, rfl⟩ := List.cons.inj (Option.some.inj ((hbehind f.1).symm.trans hbehind'))
        obtain rfl := Option.some.inj ((hdecode f.1).symm.trans hdecode')
        exact heq
  · -- the decoder runs away for some key, and no file is written
    push Not at hends
    obtain ⟨k, hk⟩ := hends
    obtain ⟨f, hf, rfl⟩ := List.mem_map.mp (sub.complete k)
    refine iff_of_false (fun h ↦ ?_) (fun h ↦ ?_)
    · have hsaved := h f hf
      rw [saved_eq_none below large _ sub.complete ((sub.decoded_eq_none_iff f.1).mpr hk)] at hsaved
      cases hsaved
    · have hback := h f hf
      unfold ComesBack at hback
      split at hback
      · exact hback.1 hk
      · obtain ⟨c, src, dest, hbehind, -⟩ := hback
        cases hbehind.symm.trans hk

/-- Every field is filled in with `1`, except for the two that are given. -/
def sampleFields (server minSingal : List Byte) : List (FormKey × List Byte) :=
  FormKey.all.map fun k ↦
    (k, if k = .server then server else if k = .minSingal then minSingal else ascii ['1'])

/-- A signal level of 30 is asked for. -/
def sample : Submission where
  fields := sampleFields (ascii ['1']) (ascii ['3', '0'])
  once := by decide
  filled := by decide
  plain := by decide
  short := by decide +kernel

/-- The name of the server contains a key. -/
def sampleNamed : Submission where
  fields := sampleFields (ascii ['A', 'P', 'N', '.', 'o', 'r', 'g']) (ascii ['4', '5'])
  once := by decide
  filled := by decide
  plain := by decide
  short := by decide +kernel

/-- The level stays at its default, and the access point becomes a part of the name
of the server. -/
theorem submitted_values_lost :
    (FormKey.minSingal, ascii ['3', '0']) ∈ sample.fields ∧
      saved 0 (fun _ ↦ 0#32) .minSignalLevel sample.fields = some (.number 45) ∧
      (FormKey.apn, ascii ['1']) ∈ sampleNamed.fields ∧
      saved 0 (fun _ ↦ 0#32) .aPN sampleNamed.fields = some (.text (ascii ['o', 'r', 'g'])) := by
  decide +kernel

end Submission

end DeviceAgent
