import DeviceAgent.ConfigRoundTrip

/-!
# One field of the form and the other settings

The value of a field reaches into other settings in three ways: it can contain the name of a
key whose field comes later in the submission, so that the search for that key ends in it; it
can bring lines of its own into the file, in front of the entries that are written later or
with a key that is read but never written; and a line that starts with a blank shortens every
value that is read behind it.  Two values that agree in all this are alike, and can be
exchanged without effect on the other settings.  A value that does none of it is inert; it has
the same effect only as values that are inert too.
-/

namespace DeviceAgent

/-! ## What a value does outside its own entry -/

namespace FormKey

/-- The keys whose entries are written before. -/
def earlier (k : FormKey) : List FormKey := all.takeWhile (· != k)

/-- The keys whose entries are written behind. -/
def later (k : FormKey) : List FormKey := (all.dropWhile (· != k)).tail

/-- The keys that are searched for in the entry: those of later entries, and those that are
never written.  The entry of `MIN_SINGAL` is the last one and is not searched for. -/
def heeded (k : FormKey) : List (List Byte) :=
  Key.IDELTIME ::
    if k = .minSingal then [] else Key.MIN_SIGNAL :: k.later.dropLast.map FormKey.szKey

end FormKey

/-- The lines of the entry behind the one with the key. -/
def extraLines (k : FormKey) (v : List Byte) : List (List Byte) := (entryLines k v).tail

/-- What the searches take notice of: that a line starts with a blank, and lines with a key
that is searched for. -/
def notice (k : FormKey) (line : List Byte) : Option (List Byte) :=
  if line.head? = some SPACE then some [SPACE]
  else if ∃ szKey ∈ k.heeded, szKey ++ [EQUALS] <+: line then some line
  else none

/-- The further lines of the entry, as far as they are noticed.  Behind the last entry nothing
is read any more, so that blanks alone do not matter there. -/
def footprint (k : FormKey) (v : List Byte) : List (List Byte) :=
  let lines := (extraLines k v).filterMap (notice k)
  if k = .minSingal ∧ ∀ line ∈ lines, line = [SPACE] then [] else lines

/-- What stands behind the name of a key in an encoded value. -/
def textBehind (j : FormKey) (v : List Byte) : Option (List Byte) :=
  (Text.search j.szKey (encode v)).map (·.drop j.szKey.length)

/-- The order of a submission: the keys before and behind the field of `k`. -/
structure FieldOrder (k : FormKey) where
  before : List FormKey
  after : List FormKey
  once : (before ++ k :: after).Perm FormKey.all

/-- Two values that do the same outside their own entry: both fit the decoder, they have the
same text behind the names of later fields, and the same lines for other searches. -/
structure Alike {k : FormKey} (o : FieldOrder k) (v w : List Byte) : Prop where
  fits : v.length ≤ 1022 ∧ w.length ≤ 1022
  names : ∀ j ∈ o.after, textBehind j v = textBehind j w
  lines : footprint k v = footprint k w

/-- A value that does nothing outside its own entry. -/
structure Inert {k : FormKey} (o : FieldOrder k) (v : List Byte) : Prop where
  fits : v.length ≤ 1022
  noName : ∀ j ∈ o.after, ¬ j.szKey <:+: encode v
  noLine : footprint k v = []

instance {k : FormKey} (o : FieldOrder k) (v w : List Byte) : Decidable (Alike o v w) :=
  decidable_of_iff ((v.length ≤ 1022 ∧ w.length ≤ 1022) ∧
      (∀ j ∈ o.after, textBehind j v = textBehind j w) ∧ footprint k v = footprint k w)
    ⟨fun h ↦ ⟨h.1, h.2.1, h.2.2⟩, fun h ↦ ⟨h.fits, h.names, h.lines⟩⟩

theorem textBehind_eq_none {j : FormKey} {v : List Byte} (h : ¬ j.szKey <:+: encode v) :
    textBehind j v = none := by
  rw [textBehind, Text.search_eq_none_iff.mpr h, Option.map_none]

theorem Inert.alike {k : FormKey} {o : FieldOrder k} {v w : List Byte} (hv : Inert o v)
    (hw : Inert o w) : Alike o v w where
  fits := ⟨hv.fits, hw.fits⟩
  names := fun j hj ↦ by
    rw [textBehind_eq_none (hv.noName j hj), textBehind_eq_none (hw.noName j hj)]
  lines := hv.noLine.trans hw.noLine.symm

namespace FormKey

theorem setting_injective {j k : FormKey} (h : j.setting = k.setting) : j = k := by
  cases j <;> cases k <;> first | rfl | cases h

theorem setting_ne_idelSecond (k : FormKey) : Setting.idelSecond ≠ k.setting := by
  cases k <;> decide

theorem setting_eq_minSignalLevel {k : FormKey} (h : Setting.minSignalLevel = k.setting) :
    k = .minSingal :=
  setting_injective (h.symm.trans rfl)

theorem all_eq (k : FormKey) : all = k.earlier ++ k :: k.later ∧ k ∉ k.earlier ∧ k ∉ k.later := by
  cases k <;> decide

theorem later_minSingal : later .minSingal = [] := by
  decide

theorem later_eq {k : FormKey} (hk : k ≠ .minSingal) :
    k.later = k.later.dropLast ++ [.minSingal] ∧ .minSingal ∉ k.earlier ∧
      .minSingal ∉ k.later.dropLast := by
  revert hk
  cases k <;> decide

theorem isName_of_heeded {k : FormKey} {szKey : List Byte} (h : szKey ∈ k.heeded) :
    IsName szKey ∧ szKey ≠ k.szKey := by
  have hkeys : ∀ k ∈ all, ∀ szKey ∈ k.heeded,
      (szKey ≠ [] ∧ ∀ b ∈ szKey, isNameByte b = true) ∧ szKey ≠ k.szKey := by
    decide
  obtain ⟨⟨hne, hbytes⟩, hother⟩ := hkeys k k.mem_all szKey h
  exact ⟨⟨hne, hbytes⟩, hother⟩

end FormKey

theorem Setting.key_cases (s : Setting) :
    s = .idelSecond ∨ s = .minSignalLevel ∨ ∃ j : FormKey, j.szKey = s.key ∧ j.setting = s := by
  cases s
  case idelSecond => exact Or.inl rfl
  case minSignalLevel => exact Or.inr (Or.inl rfl)
  case serverName => exact Or.inr (Or.inr ⟨.server, rfl, rfl⟩)
  case mPdev => exact Or.inr (Or.inr ⟨.mpPort, rfl, rfl⟩)
  case machine => exact Or.inr (Or.inr ⟨.machine, rfl, rfl⟩)
  case modemDelay => exact Or.inr (Or.inr ⟨.modemDelay, rfl, rfl⟩)
  case powerOnDelay => exact Or.inr (Or.inr ⟨.powerOnDelay, rfl, rfl⟩)
  case dataPort => exact Or.inr (Or.inr ⟨.dataPort, rfl, rfl⟩)
  case traceLevel => exact Or.inr (Or.inr ⟨.logLevel, rfl, rfl⟩)
  case commandPort => exact Or.inr (Or.inr ⟨.commandPort, rfl, rfl⟩)
  case aPN => exact Or.inr (Or.inr ⟨.apn, rfl, rfl⟩)
  case iP => exact Or.inr (Or.inr ⟨.localIP, rfl, rfl⟩)
  case modemIP => exact Or.inr (Or.inr ⟨.modemIP, rfl, rfl⟩)
  case userName => exact Or.inr (Or.inr ⟨.userName, rfl, rfl⟩)
  case intervalSecond => exact Or.inr (Or.inr ⟨.interval, rfl, rfl⟩)
  case password => exact Or.inr (Or.inr ⟨.password, rfl, rfl⟩)

/-- The key of another setting is found in an earlier entry, or searched for in this one. -/
theorem Setting.heeded_or_earlier {s : Setting} {k : FormKey} (hs : s ≠ k.setting) :
    s.key ∈ k.heeded ∨ ∃ j ∈ k.earlier, j.szKey = s.key := by
  rcases s.key_cases with rfl | rfl | ⟨j, hj, rfl⟩
  · exact Or.inl List.mem_cons_self
  · have hk : k ≠ .minSingal := fun heq ↦ hs (heq ▸ rfl)
    refine Or.inl (List.mem_cons_of_mem _ ?_)
    rw [if_neg hk]
    exact List.mem_cons_self
  · have hne : j ≠ k := fun heq ↦ hs (congrArg FormKey.setting heq)
    have hlast : j ≠ .minSingal := by
      rintro rfl
      exact absurd hj (by decide)
    have hmem := j.mem_all
    rw [k.all_eq.1, List.mem_append, List.mem_cons, or_iff_right hne] at hmem
    refine hmem.symm.imp (fun hlater ↦ ?_) fun hearlier ↦ ⟨j, hearlier, hj⟩
    have hk : k ≠ .minSingal := by
      rintro rfl
      rw [FormKey.later_minSingal] at hlater
      cases hlater
    rw [(FormKey.later_eq hk).1, List.mem_append, List.mem_singleton, or_iff_left hlast] at hlater
    rw [← hj, FormKey.heeded, if_neg hk]
    exact List.mem_cons_of_mem _ (List.mem_cons_of_mem _ (List.mem_map_of_mem hlater))

/-! ## Exchanging values that are alike -/

section Exchange

variable {below : ℕ} {large : ℤ → BitVec 32} {k : FormKey} {v w : List Byte} {s : Setting}

/-- A search for a key that is heeded sees only what is noticed of the lines. -/
theorem getValueLoop_notice (below : ℕ) {szKey : List Byte} (hkey : szKey ∈ k.heeded) (nLen : ℤ)
    (nSpace : ℕ) (lines : List (List Byte)) :
    getValueLoop below szKey nLen nSpace lines =
        getValueLoop below szKey nLen nSpace (lines.filterMap (notice k)) ∧
      indent below lines = indent below (lines.filterMap (notice k)) := by
  have hname := (FormKey.isName_of_heeded hkey).1
  have hblank : ∀ read : List Byte, read.head? = some SPACE →
      ∀ n, getValueLoop below szKey nLen n [read] = none := by
    intro read hread n
    refine getValueLoop_eq_none n fun line hline hprefix ↦ ?_
    obtain rfl := List.mem_singleton.mp hline
    exact head?_of_key hname hprefix (by decide) hread
  induction lines generalizing nSpace with
  | nil => exact ⟨rfl, rfl⟩
  | cons read lines ih =>
      have hsum : ∀ (read : List Byte) (lines : List (List Byte)),
          indent below (read :: lines) = indentOf below read + indent below lines :=
        fun _ _ ↦ List.sum_cons
      by_cases hspace : read.head? = some SPACE
      · have hnotice : notice k read = some [SPACE] := if_pos hspace
        have hindent : indentOf below read = indentOf below [SPACE] :=
          (if_pos hspace).trans (if_pos rfl).symm
        rw [List.filterMap_cons_some hnotice, getValueLoop_cons, getValueLoop_cons _ [SPACE],
          hblank read hspace, hblank [SPACE] rfl, hsum, hsum, hindent]
        exact ⟨congrArg _ (ih _).1, congrArg _ (ih 0).2⟩
      · by_cases hheeded : ∃ szKey ∈ k.heeded, szKey ++ [EQUALS] <+: read
        · have hnotice : notice k read = some read := by
            rw [notice, if_neg hspace, if_pos hheeded]
          rw [List.filterMap_cons_some hnotice, getValueLoop_cons _ _ lines,
            getValueLoop_cons _ _ (lines.filterMap (notice k)), hsum, hsum]
          exact ⟨congrArg _ (ih _).1, congrArg _ (ih 0).2⟩
        · have hnotice : notice k read = none := by
            rw [notice, if_neg hspace, if_neg hheeded]
          have hnone : getValueLoop below szKey nLen nSpace [read] = none := by
            refine getValueLoop_eq_none nSpace fun line hline hprefix ↦ hheeded ⟨szKey, hkey, ?_⟩
            rwa [← List.mem_singleton.mp hline]
          have hindent : indentOf below read = 0 := if_neg hspace
          rw [List.filterMap_cons_none hnotice, getValueLoop_cons, hnone, hsum, hindent,
            Option.none_or, Nat.add_zero, Nat.zero_add]
          exact ih nSpace

/-- Of an entry it sees the footprint. -/
theorem getValueLoop_footprint (below : ℕ) {szKey : List Byte} (hkey : szKey ∈ k.heeded) (nLen : ℤ)
    (nSpace : ℕ) (v : List Byte) :
    getValueLoop below szKey nLen nSpace (entryLines k v) =
        getValueLoop below szKey nLen nSpace (footprint k v) ∧
      (k ≠ .minSingal → indent below (entryLines k v) = indent below (footprint k v)) := by
  obtain ⟨hname, hother⟩ := FormKey.isName_of_heeded hkey
  obtain ⟨first, rest, heq, hown⟩ := entryLines_cons k v
  have hfirst : PassedOver szKey [first] := by
    constructor
    · intro line hline hprefix
      obtain rfl := List.mem_singleton.mp hline
      exact hother (key_unique hname hown hprefix)
    · intro line hline
      obtain rfl := List.mem_singleton.mp hline
      exact head?_of_key k.isName_szKey hown (by decide)
  have hextra : extraLines k v = rest := by rw [extraLines, heq, List.tail_cons]
  have hindent : indent below (first :: rest) = indent below rest := by
    have hzero : indent below [first] = 0 := indent_eq_zero hfirst.noBlank
    rw [indent, List.map_singleton, List.sum_singleton] at hzero
    rw [indent, List.map_cons, List.sum_cons, hzero, Nat.zero_add]
    rfl
  obtain ⟨hloop, hsum⟩ := getValueLoop_notice below hkey nLen nSpace rest
  rw [heq, ← List.singleton_append, hfirst.getValueLoop_append, List.singleton_append, hindent,
    footprint, hextra]
  split_ifs with hlast
  · obtain ⟨rfl, hblanks⟩ := hlast
    refine ⟨?_, fun h ↦ absurd rfl h⟩
    rw [hloop]
    refine getValueLoop_eq_none nSpace fun line hline hprefix ↦ ?_
    rw [hblanks line hline] at hprefix
    exact head?_of_key hname hprefix (show isNameByte SPACE = false by decide) rfl
  · exact ⟨hloop, fun _ ↦ hsum⟩

theorem fileLines_congr {ks : List FormKey} {dest dest' : FormKey → List Byte}
    (h : ∀ j ∈ ks, dest j = dest' j) : fileLines ks dest = fileLines ks dest' := by
  refine List.flatMap_congr fun j hj ↦ ?_
  rw [h j hj]

theorem foundIn_congr {dest dest' : FormKey → List Byte} (hother : ∀ j, j ≠ k → dest j = dest' j)
    (hlines : footprint k (dest k) = footprint k (dest' k)) (hs : s ≠ k.setting) :
    foundIn below s.key (fileLines FormKey.all dest) =
      foundIn below s.key (fileLines FormKey.all dest') := by
  obtain ⟨hall, hearlier, hlater⟩ := k.all_eq
  have hfirst : fileLines k.earlier dest = fileLines k.earlier dest' :=
    fileLines_congr fun j hj ↦ hother j fun heq ↦ hearlier (heq ▸ hj)
  have hrest : fileLines k.later dest = fileLines k.later dest' :=
    fileLines_congr fun j hj ↦ hother j fun heq ↦ hlater (heq ▸ hj)
  rw [foundIn, foundIn, hall, fileLines_append, fileLines_append, getValueLoop_append,
    getValueLoop_append, hfirst]
  rcases Setting.heeded_or_earlier hs with hkey | ⟨j, hj, hkey⟩
  · -- the search goes on through the entry
    have hname := s.isName_key
    have hentry : ∀ (n : ℕ) (more : List (List Byte)), (k = .minSingal → more = []) →
        getValueLoop below s.key 1024 n (entryLines k (dest k) ++ more) =
          getValueLoop below s.key 1024 n (entryLines k (dest' k) ++ more) := by
      intro n more hmore
      obtain ⟨hloop, hindent⟩ := getValueLoop_footprint below hkey 1024 n (dest k)
      obtain ⟨hloop', hindent'⟩ := getValueLoop_footprint below hkey 1024 n (dest' k)
      rw [getValueLoop_append, getValueLoop_append, hloop, hloop', hlines]
      by_cases hk : k = .minSingal
      · rw [hmore hk]
        rfl
      · rw [hindent hk, hindent' hk, hlines]
    rw [fileLines_cons, fileLines_cons, (comment_passedOver hname k).getValueLoop_append,
      (comment_passedOver hname k).getValueLoop_append, hrest, hentry]
    rintro rfl
    rw [FormKey.later_minSingal]
    rfl
  · -- the search ends in an earlier entry
    obtain ⟨first, rest, heq, hown⟩ := entryLines_cons j (dest' j)
    have hline : first ∈ fileLines k.earlier dest' := by
      refine List.mem_flatMap.mpr ⟨j, hj, List.mem_cons_of_mem _ ?_⟩
      rw [heq]
      exact List.mem_cons_self
    have hsome : (getValueLoop below s.key 1024 0 (fileLines k.earlier dest')).isSome = true :=
      getValueLoop_isSome s.isName_key 0 hline (hkey ▸ hown)
    obtain ⟨r, hr⟩ := Option.isSome_iff_exists.mp hsome
    rw [hr, Option.some_or, Option.some_or]

theorem behind_append (j : FormKey) (fields more : List (FormKey × List Byte)) :
    behind j (fields ++ more) = (behind j fields).or (behind j more) := by
  induction fields with
  | nil => rw [List.nil_append, behind, Option.none_or]
  | cons f fields ih => rw [List.cons_append, behind_cons, behind_cons, ih, Option.or_assoc]

theorem decoded_congr {j : FormKey} {fields fields' : List (FormKey × List Byte)}
    (h : behind j fields = behind j fields') : decoded j fields = decoded j fields' := by
  rw [decoded, decoded, h]

theorem decoded_of_behind {j : FormKey} {fields : List (FormKey × List Byte)} {value : List Byte}
    (h : behind j fields = some (EQUALS :: encode value)) :
    decoded j fields = if value.length ≤ 1022 then some value else none := by
  simp only [decoded, h, Option.bind_some, urldecode_encode]

theorem behind_self (k : FormKey) (v : List Byte) (rest : List (FormKey × List Byte)) :
    behind k ((k, v) :: rest) = some (EQUALS :: encode v) :=
  if_pos rfl

/-- What is found for another key in front of, in and behind a field. -/
theorem behind_other {j : FormKey} (hj : j ≠ k) (before after : List (FormKey × List Byte)) :
    behind j (before ++ (k, v) :: after) =
      (behind j before).or ((textBehind j v).or (behind j after)) := by
  rw [behind_append, behind, if_neg (Ne.symm hj)]
  rfl

/-- For its own key a field is all there is, or an earlier field has the key. -/
theorem decoded_own (before after : List (FormKey × List Byte)) (k : FormKey) :
    (∃ dest, ∀ v, decoded k (before ++ (k, v) :: after) = dest) ∨
      ∀ v, decoded k (before ++ (k, v) :: after) = if v.length ≤ 1022 then some v else none := by
  cases hbefore : behind k before with
  | some text =>
      refine Or.inl ⟨decoded k before, fun v ↦ decoded_congr ?_⟩
      rw [behind_append, hbefore, Option.some_or]
  | none =>
      refine Or.inr fun v ↦ decoded_of_behind ?_
      rw [behind_append, hbefore, Option.none_or, behind_self]

/-- The getters see only what is decoded, and of the field of `k` only its footprint. -/
theorem saved_congr {fields fields' : List (FormKey × List Byte)} (hall : Complete fields)
    (hall' : Complete fields') (hother : ∀ j, j ≠ k → decoded j fields = decoded j fields')
    (hown : decoded k fields = decoded k fields' ∨
      ∃ v w, decoded k fields = some v ∧ decoded k fields' = some w ∧ footprint k v = footprint k w)
    (hs : s ≠ k.setting) : saved below large s fields = saved below large s fields' := by
  have hnone : ∀ j, decoded j fields = none ↔ decoded j fields' = none := by
    intro j
    rcases eq_or_ne j k with rfl | hj
    · rcases hown with heq | ⟨v, w, hv, hw, -⟩
      · rw [heq]
      · rw [hv, hw]
        exact iff_of_false (Option.some_ne_none v) (Option.some_ne_none w)
    · rw [hother j hj]
  by_cases hruns : ∃ j, decoded j fields = none
  · obtain ⟨j, hj⟩ := hruns
    rw [saved_eq_none below large s hall hj, saved_eq_none below large s hall' ((hnone j).mp hj)]
  · push Not at hruns
    choose dest hdest using fun j ↦ Option.ne_none_iff_exists'.mp (hruns j)
    choose dest' hdest' using fun j ↦
      Option.ne_none_iff_exists'.mp (mt (hnone j).mpr (hruns j))
    rw [saved_eq_some below large s hall hdest, saved_eq_some below large s hall' hdest']
    refine congrArg (fun found ↦ some (s.value large found)) (foundIn_congr (fun j hj ↦ ?_) ?_ hs)
    · exact Option.some.inj ((hdest j).symm.trans ((hother j hj).trans (hdest' j)))
    · rcases hown with heq | ⟨v, w, hv, hw, hlines⟩
      · rw [Option.some.inj ((hdest k).symm.trans (heq.trans (hdest' k)))]
      · rwa [Option.some.inj ((hdest k).symm.trans hv), Option.some.inj ((hdest' k).symm.trans hw)]

end Exchange

/-! ## Submissions in a given order -/

theorem behind_map {u : FormKey → List Byte} {j : FormKey} {ks : List FormKey} (hj : j ∈ ks)
    (hclean : ∀ i, ¬ j.szKey <:+: encode (u i)) :
    behind j (ks.map fun i ↦ (i, u i)) = some (EQUALS :: encode (u j)) := by
  induction ks with
  | nil => cases hj
  | cons i ks ih =>
      rw [List.map_cons, behind]
      by_cases hi : i = j
      · rw [if_pos hi, hi]
      · rw [if_neg hi, Text.search_eq_none_iff.mpr (hclean i), Option.map_none, Option.none_or]
        exact ih ((List.mem_cons.mp hj).resolve_left (Ne.symm hi))

theorem behind_map_eq_none {u : FormKey → List Byte} {j : FormKey} {ks : List FormKey}
    (hj : j ∉ ks) (hclean : ∀ i, ¬ j.szKey <:+: encode (u i)) :
    behind j (ks.map fun i ↦ (i, u i)) = none := by
  induction ks with
  | nil => rfl
  | cons i ks ih =>
      obtain ⟨hi, hks⟩ := List.ne_and_not_mem_of_not_mem_cons hj
      rw [List.map_cons, behind, if_neg (Ne.symm hi), Text.search_eq_none_iff.mpr (hclean i),
        Option.map_none, Option.none_or]
      exact ih hks

namespace FieldOrder

variable {k : FormKey} (o : FieldOrder k)

/-- The fields with these values, and `v` for the key. -/
def form (u : FormKey → List Byte) (v : List Byte) : List (FormKey × List Byte) :=
  o.before.map (fun j ↦ (j, u j)) ++ (k, v) :: o.after.map fun j ↦ (j, u j)

theorem mem_or_mem {j : FormKey} (hj : j ≠ k) : j ∈ o.before ∨ j ∈ o.after := by
  have hmem := o.once.mem_iff.mpr j.mem_all
  rwa [List.mem_append, List.mem_cons, or_iff_right hj] at hmem

theorem nodup : (o.before ++ k :: o.after).Nodup :=
  o.once.nodup_iff.mpr (by decide)

theorem notMem_before : k ∉ o.before := fun hmem ↦
  (List.nodup_append.mp o.nodup).2.2 k hmem k List.mem_cons_self rfl

theorem notMem_before_of_after {j : FormKey} (hj : j ∈ o.after) : j ∉ o.before := fun hmem ↦
  (List.nodup_append.mp o.nodup).2.2 j hmem j (List.mem_cons_of_mem k hj) rfl

theorem complete (u : FormKey → List Byte) (v : List Byte) : Complete (o.form u v) := by
  intro j
  have hkeys : (o.form u v).map Prod.fst = o.before ++ k :: o.after := by
    simp [form, Function.comp_def]
  rw [hkeys]
  exact o.once.mem_iff.mpr j.mem_all

theorem behind_of_before {j : FormKey} (hj : j ∈ o.before) (u : FormKey → List Byte)
    (v w : List Byte) : behind j (o.form u v) = behind j (o.form u w) := by
  have hmem : j ∈ (o.before.map fun j ↦ (j, u j)).map Prod.fst := by simpa using hj
  obtain ⟨text, htext⟩ := Option.isSome_iff_exists.mp (behind_isSome hmem)
  rw [form, form, behind_append, behind_append, htext, Option.some_or, Option.some_or]

end FieldOrder

/-- Exchanging the two values has no effect on the settings of other keys, whatever is filled
in for these. -/
def Isolated (below : ℕ) (large : ℤ → BitVec 32) {k : FormKey} (o : FieldOrder k)
    (v w : List Byte) : Prop :=
  ∀ u s, s ≠ k.setting → saved below large s (o.form u v) = saved below large s (o.form u w)

theorem Alike.isolated {k : FormKey} {o : FieldOrder k} {v w : List Byte} (h : Alike o v w)
    (below : ℕ) (large : ℤ → BitVec 32) : Isolated below large o v w := by
  intro u s hs
  refine saved_congr (o.complete u v) (o.complete u w) (fun j hj ↦ decoded_congr ?_) ?_ hs
  · rcases o.mem_or_mem hj with hbefore | hafter
    · exact o.behind_of_before hbefore u v w
    · rw [FieldOrder.form, FieldOrder.form, behind_other hj, behind_other hj, h.names j hafter]
  · rcases decoded_own (o.before.map fun j ↦ (j, u j)) (o.after.map fun j ↦ (j, u j)) k with
      ⟨dest, hdest⟩ | hdest
    · exact Or.inl ((hdest v).trans (hdest w).symm)
    · exact Or.inr ⟨v, w, (hdest v).trans (if_pos h.fits.1), (hdest w).trans (if_pos h.fits.2),
        h.lines⟩

/-! ## Forms that show what a value does -/

/-- Values that contain no key and fit the decoder. -/
structure Clean (u : FormKey → List Byte) : Prop where
  noName : ∀ i j : FormKey, ¬ i.szKey <:+: encode (u j)
  fits : ∀ j, (u j).length ≤ 1022

section Context

variable {below : ℕ} {large : ℤ → BitVec 32} {k : FormKey} {o : FieldOrder k} {v : List Byte}
  {u u' : FormKey → List Byte}

theorem decoded_form (hclean : Clean u) (hfits : v.length ≤ 1022)
    (hname : ∀ j ∈ o.after, ¬ j.szKey <:+: encode v) (j : FormKey) :
    decoded j (o.form u v) = some (Function.update u k v j) := by
  rcases eq_or_ne j k with rfl | hj
  · have hbehind : behind j (o.form u v) = some (EQUALS :: encode v) := by
      rw [FieldOrder.form, behind_append,
        behind_map_eq_none o.notMem_before (hclean.noName j), Option.none_or, behind_self]
    rw [decoded_of_behind hbehind, if_pos hfits, Function.update_self]
  · have hbehind : behind j (o.form u v) = some (EQUALS :: encode (u j)) := by
      rw [FieldOrder.form, behind_other hj]
      rcases o.mem_or_mem hj with hbefore | hafter
      · rw [behind_map hbefore (hclean.noName j), Option.some_or]
      · rw [behind_map_eq_none (o.notMem_before_of_after hafter) (hclean.noName j),
          textBehind_eq_none (hname j hafter), behind_map hafter (hclean.noName j),
          Option.none_or, Option.none_or]
    rw [decoded_of_behind hbehind, if_pos (hclean.fits j), Function.update_of_ne hj]

theorem saved_form (s : Setting) (hclean : Clean u) (hfits : v.length ≤ 1022)
    (hname : ∀ j ∈ o.after, ¬ j.szKey <:+: encode v) :
    saved below large s (o.form u v) =
      some (s.value large
        (foundIn below s.key (fileLines FormKey.all (Function.update u k v)))) :=
  saved_eq_some below large s (o.complete u v) (decoded_form hclean hfits hname)

/-- If the value has the name of a later field, that field does not matter. -/
theorem saved_shadowed {s : Setting} (hs : s ≠ k.setting) (hclean : Clean u) (hclean' : Clean u')
    {j : FormKey} (hj : j ∈ o.after) (hname : j.szKey <:+: encode v)
    (hsame : ∀ i, i ≠ j → u i = u' i) :
    saved below large s (o.form u v) = saved below large s (o.form u' v) := by
  have hbehind : ∀ i, behind i (o.form u v) = behind i (o.form u' v) := by
    intro i
    have hfirst : behind i (o.before.map fun i ↦ (i, u i)) =
        behind i (o.before.map fun i ↦ (i, u' i)) := by
      congr 1
      refine List.map_congr_left fun i hi ↦ ?_
      rw [hsame i fun heq ↦ o.notMem_before_of_after hj (heq ▸ hi)]
    rw [FieldOrder.form, FieldOrder.form]
    rcases eq_or_ne i k with rfl | hi
    · rw [behind_append, behind_append, behind_self, behind_self, hfirst]
    · rw [behind_other hi, behind_other hi, hfirst]
      rcases eq_or_ne i j with rfl | hij
      · obtain ⟨found, hfound⟩ : ∃ found, Text.search i.szKey (encode v) = some found := by
          rw [← Option.ne_none_iff_exists', ne_eq, Text.search_eq_none_iff, not_not]
          exact hname
        rw [textBehind, hfound, Option.map_some, Option.some_or, Option.some_or]
      · by_cases hafter : i ∈ o.after
        · rw [behind_map hafter (hclean.noName i), behind_map hafter (hclean'.noName i),
            hsame i hij]
        · rw [behind_map_eq_none hafter (hclean.noName i),
            behind_map_eq_none hafter (hclean'.noName i)]
  exact saved_congr (o.complete u v) (o.complete u' v) (fun i _ ↦ decoded_congr (hbehind i))
    (Or.inl (decoded_congr (hbehind k))) hs

end Context

/-! ## The empty value, and a value in one field only -/

theorem encode_nil_noName (j : FormKey) : ¬ j.szKey <:+: encode [] :=
  fun h ↦ j.isName_szKey.ne_nil (List.infix_nil.mp h)

theorem plain_nil (k : FormKey) : Plain k [] := by
  refine ⟨List.not_mem_nil, List.not_mem_nil, ?_⟩
  have := k.length_szKey
  rw [List.length_nil]
  omega

theorem inert_nil {k : FormKey} (o : FieldOrder k) : Inert o [] where
  fits := Nat.zero_le _
  noName := fun j _ ↦ encode_nil_noName j
  noLine := by
    have hextra : extraLines k [] = [[LF]] := by
      rw [extraLines, (plain_nil k).entryLines_eq]
      rfl
    have hnotice : notice k [LF] = none := by
      cases k <;> decide
    rw [footprint, hextra, List.filterMap_cons_none hnotice, List.filterMap_nil]
    exact ite_self _

/-- All fields are empty, except for one. -/
def lone (j : FormKey) (t : List Byte) : FormKey → List Byte := Function.update (fun _ ↦ []) j t

theorem clean_lone {t : List Byte} (j : FormKey) (hname : ∀ i : FormKey, ¬ i.szKey <:+: encode t)
    (hfits : t.length ≤ 1022) : Clean (lone j t) := by
  have hvalue : ∀ i, lone j t i = t ∨ lone j t i = [] := by
    intro i
    rcases eq_or_ne i j with rfl | hi
    · exact Or.inl (Function.update_self ..)
    · exact Or.inr (Function.update_of_ne hi ..)
  constructor
  · intro i i'
    rcases hvalue i' with heq | heq
    · rw [heq]
      exact hname i
    · rw [heq]
      exact encode_nil_noName i
  · intro i
    rcases hvalue i with heq | heq
    · rw [heq]
      exact hfits
    · rw [heq]
      exact Nat.zero_le _

theorem lone_of_ne {j i : FormKey} (t : List Byte) (hi : i ≠ j) : lone j t i = [] :=
  Function.update_of_ne hi ..

/-! ## Lines that are read but not written -/

/-- A value with a second line that gives a setting one digit. -/
def inject (s : Setting) (digit : Byte) : List Byte :=
  0x30#8 :: LF :: s.key ++ [EQUALS, digit]

/-- The settings whose keys are not written by any entry. -/
def unwritten : List Setting := [.idelSecond, .minSignalLevel]

/-- The digits that are told apart. -/
def probes : List Byte := [0x35#8, 0x36#8]

section Inject

variable {below : ℕ} {large : ℤ → BitVec 32} {k : FormKey} {v : List Byte} {s : Setting}
  {digit : Byte}

/-- A small number is read alike by every library. -/
theorem atoi_of_small (large : ℤ → BitVec 32) (x : List Byte)
    (hx : -(2 ^ 31) ≤ leadingInt x ∧ leadingInt x < 2 ^ 31) : atoi large x = leadingInt x :=
  if_pos hx

theorem value_of_small (large : ℤ → BitVec 32) (x : List Byte)
    (hx : -(2 ^ 31) ≤ leadingInt x ∧ leadingInt x < 2 ^ 31) (s : Setting) :
    s.value large (some x) = s.value (fun _ ↦ 0#32) (some x) := by
  simp only [Setting.value, atoi_of_small large x hx, atoi_of_small (fun _ ↦ 0#32) x hx]

theorem unwritten_key_ne (hs : s ∈ unwritten) (j : FormKey) : s.key ≠ j.szKey := by
  have hall : ∀ s ∈ unwritten, ∀ j ∈ FormKey.all, s.key ≠ j.szKey := by
    decide
  exact hall s hs j j.mem_all

theorem value_unwritten (large : ℤ → BitVec 32) (hs : s ∈ unwritten) (x : List Byte) :
    s.value large (some x) = .number (atoi large x) := by
  simp only [unwritten, List.mem_cons, List.not_mem_nil, or_false] at hs
  rcases hs with rfl | rfl <;> rfl

theorem clean_inject (hs : s ∈ unwritten) (hdigit : digit ∈ probes) :
    Clean (lone .minSingal (inject s digit)) := by
  have hall : ∀ s ∈ unwritten, ∀ digit ∈ probes, (inject s digit).length ≤ 1022 ∧
      ∀ i ∈ FormKey.all, Text.search i.szKey (encode (inject s digit)) = none := by
    decide
  obtain ⟨hfits, hname⟩ := hall s hs digit hdigit
  exact clean_lone _ (fun i ↦ Text.search_eq_none_iff.mp (hname i i.mem_all)) hfits

theorem entryLines_inject (hs : s ∈ unwritten) (hdigit : digit ∈ probes) :
    entryLines .minSingal (inject s digit) =
      [FormKey.minSingal.szKey ++ [EQUALS, 0x30#8, LF]] ++
        [s.key ++ EQUALS :: [digit] ++ [LF], [LF]] := by
  have hall : ∀ s ∈ unwritten, ∀ digit ∈ probes, entryLines .minSingal (inject s digit) =
      [FormKey.minSingal.szKey ++ [EQUALS, 0x30#8, LF]] ++
        [s.key ++ EQUALS :: [digit] ++ [LF], [LF]] := by
    decide
  exact hall s hs digit hdigit

/-- The injected digit is what is found, unless a blank has been counted. -/
theorem getValueLoop_inject (hs : s ∈ unwritten) (hdigit : digit ∈ probes) (nSpace : ℕ) :
    getValueLoop below s.key 1024 nSpace (entryLines .minSingal (inject s digit)) =
      some (0, [digit].rdrop nSpace) := by
  have hname := s.isName_key
  have hfirst : PassedOver s.key [FormKey.minSingal.szKey ++ [EQUALS, 0x30#8, LF]] := by
    have hown : FormKey.minSingal.szKey ++ [EQUALS] <+:
        FormKey.minSingal.szKey ++ [EQUALS, 0x30#8, LF] := ⟨[0x30#8, LF], rfl⟩
    constructor
    · intro read hread hkey
      obtain rfl := List.mem_singleton.mp hread
      exact unwritten_key_ne hs _ (key_unique hname hown hkey)
    · intro read hread
      obtain rfl := List.mem_singleton.mp hread
      decide
  have hplain : LF ∉ [digit] ∧ NUL ∉ [digit] := by
    have hall : ∀ digit ∈ probes, LF ∉ [digit] ∧ NUL ∉ [digit] := by decide
    exact hall digit hdigit
  have hroom : s.key.length + [digit].length + 2 ≤ 1023 := by
    have hall : ∀ s ∈ unwritten, s.key.length ≤ 1000 := by decide
    have := hall s hs
    rw [List.length_singleton]
    omega
  rw [entryLines_inject hs hdigit, hfirst.getValueLoop_append,
    getValueLoop_line hname nSpace hplain.1 hplain.2 hroom]

/-- Entries that are empty have nothing for a key that is not theirs. -/
theorem fileLines_empty_passedOver {szKey : List Byte} (hname : IsName szKey) {ks : List FormKey}
    (hkey : ∀ j ∈ ks, szKey ≠ j.szKey) {dest : FormKey → List Byte}
    (hdest : ∀ j ∈ ks, dest j = []) : PassedOver szKey (fileLines ks dest) := by
  refine fileLines_passedOver hname fun j hj ↦ ?_
  rw [hdest j hj]
  exact (plain_nil j).passedOver hname (hkey j hj)

/-- In a form with an injected digit another field is the only one to interfere. -/
theorem getValueLoop_injected (hk : k ≠ .minSingal) (hs : s ∈ unwritten)
    (hdigit : digit ∈ probes) (v : List Byte) :
    getValueLoop below s.key 1024 0
        (fileLines FormKey.all (Function.update (lone .minSingal (inject s digit)) k v)) =
      (getValueLoop below s.key 1024 0 (entryLines k v)).or
        (some (0, [digit].rdrop (indent below (entryLines k v)))) := by
  have hname := s.isName_key
  obtain ⟨hall, hearlier, hlater⟩ := k.all_eq
  obtain ⟨hsplit, hearlier', hbetween'⟩ := FormKey.later_eq hk
  have hbetween : k ∉ k.later.dropLast := fun hmem ↦ hlater (List.mem_of_mem_dropLast hmem)
  generalize hdest : Function.update (lone .minSingal (inject s digit)) k v = dest
  have hown : dest k = v := by rw [← hdest, Function.update_self]
  have hinject : dest .minSingal = inject s digit := by
    rw [← hdest, Function.update_of_ne (Ne.symm hk), lone, Function.update_self]
  have hpassed : ∀ ks : List FormKey, k ∉ ks → .minSingal ∉ ks →
      PassedOver s.key (fileLines ks dest) := by
    intro ks hks hks'
    refine fileLines_empty_passedOver hname (fun j _ ↦ unwritten_key_ne hs j) fun j hj ↦ ?_
    rw [← hdest, Function.update_of_ne (ne_of_mem_of_not_mem hj hks),
      lone_of_ne _ (ne_of_mem_of_not_mem hj hks')]
  rw [hall, hsplit, fileLines_append, (hpassed _ hearlier hearlier').getValueLoop_append,
    fileLines_cons, (comment_passedOver hname k).getValueLoop_append, getValueLoop_append, hown,
    fileLines_append, (hpassed _ hbetween hbetween').getValueLoop_append, fileLines_cons,
    (comment_passedOver hname _).getValueLoop_append, hinject, Nat.zero_add, getValueLoop_append,
    getValueLoop_inject hs hdigit, Option.some_or]

/-- A line with the key of a later entry is found instead of that entry. -/
theorem foundIn_line {j : FormKey} (hj : j ∈ k.later) {line : List Byte}
    (hline : line ∈ entryLines k v) (hkey : j.szKey ++ [EQUALS] <+: line) (t t' : List Byte) :
    foundIn below j.szKey (fileLines FormKey.all (Function.update (lone j t) k v)) =
      foundIn below j.szKey (fileLines FormKey.all (Function.update (lone j t') k v)) := by
  have hname := j.isName_szKey
  obtain ⟨hall, hearlier, hlater⟩ := k.all_eq
  have hjk : j ≠ k := ne_of_mem_of_not_mem hj hlater
  have hsome : (getValueLoop below j.szKey 1024 0 (entryLines k v)).isSome = true :=
    getValueLoop_isSome hname 0 hline hkey
  obtain ⟨r, hr⟩ := Option.isSome_iff_exists.mp hsome
  have hnodup : (k.earlier ++ k :: k.later).Nodup := hall ▸ by decide
  have hfirst : j ∉ k.earlier := fun hmem ↦
    (List.nodup_append.mp hnodup).2.2 j hmem j (List.mem_cons_of_mem k hj) rfl
  have hfound : ∀ t, getValueLoop below j.szKey 1024 0
      (fileLines FormKey.all (Function.update (lone j t) k v)) = some r := by
    intro t
    have hpassed : PassedOver j.szKey
        (fileLines k.earlier (Function.update (lone j t) k v)) := by
      refine fileLines_empty_passedOver hname (fun i hi heq ↦ ?_) fun i hi ↦ ?_
      · exact hfirst (FormKey.eq_of_szKey heq ▸ hi)
      · rw [Function.update_of_ne (ne_of_mem_of_not_mem hi hearlier),
          lone_of_ne _ (ne_of_mem_of_not_mem hi hfirst)]
    rw [hall, fileLines_append, hpassed.getValueLoop_append, fileLines_cons,
      (comment_passedOver hname k).getValueLoop_append, getValueLoop_append,
      Function.update_self, hr, Option.some_or]
  rw [foundIn, foundIn, hfound t, hfound t']

end Inject

/-! ## What an exchange for the empty value shows -/

section Isolated

variable {below : ℕ} {large : ℤ → BitVec 32} {k : FormKey} {o : FieldOrder k} {v : List Byte}
  {s : Setting} {digit : Byte}

theorem Isolated.fits (h : Isolated below large o v []) : v.length ≤ 1022 := by
  by_contra hlong
  have hclean : Clean fun _ ↦ [] := ⟨fun i _ ↦ encode_nil_noName i, fun _ ↦ Nat.zero_le _⟩
  have hsaved := h (fun _ ↦ []) .idelSecond k.setting_ne_idelSecond
  have hbehind : behind k (o.form (fun _ ↦ []) v) = some (EQUALS :: encode v) := by
    rw [FieldOrder.form, behind_append, behind_map_eq_none o.notMem_before (hclean.noName k),
      Option.none_or, behind_self]
  have hnone : decoded k (o.form (fun _ ↦ []) v) = none := by
    rw [decoded_of_behind hbehind, if_neg hlong]
  rw [saved_eq_none below large _ (o.complete _ v) hnone,
    saved_form _ hclean (Nat.zero_le _) fun j _ ↦ encode_nil_noName j] at hsaved
  cases hsaved

theorem saved_inject (hk : k ≠ .minSingal) (hs : s ∈ unwritten) (hdigit : digit ∈ probes) :
    saved below large s (o.form (lone .minSingal (inject s digit)) []) =
      some (.number (atoi large [digit])) := by
  have hpassed := (plain_nil k).passedOver s.isName_key (unwritten_key_ne hs k)
  rw [saved_form s (clean_inject hs hdigit) (Nat.zero_le _) fun j _ ↦ encode_nil_noName j,
    foundIn, getValueLoop_injected hk hs hdigit, getValueLoop_eq_none 0 hpassed.noKey,
    indent_eq_zero hpassed.noBlank, Option.none_or, List.rdrop_zero]
  exact congrArg some (value_unwritten large hs [digit])

theorem saved_lone {j : FormKey} (hj : j ≠ .minSingal) (hjk : j ≠ k) {t : List Byte}
    (hclean : Clean (lone j t)) (hplain : Plain j t) :
    saved below large j.setting (o.form (lone j t) []) =
      some (j.setting.value large (some t)) := by
  have hall : ∀ i, Plain i (Function.update (lone j t) k [] i) := by
    intro i
    rcases eq_or_ne i k with rfl | hi
    · rw [Function.update_self]
      exact plain_nil i
    · rw [Function.update_of_ne hi]
      rcases eq_or_ne i j with rfl | hij
      · rw [lone, Function.update_self]
        exact hplain
      · rw [lone_of_ne t hij]
        exact plain_nil i
  rw [saved_form _ hclean (Nat.zero_le _) fun j _ ↦ encode_nil_noName j,
    FormKey.setting_key hj, foundIn_plain below hall j, Function.update_of_ne hjk, lone,
    Function.update_self]

/-- The digits that are filled in for another key. -/
theorem clean_digit (j : FormKey) (digit : Byte) (hdigit : digit ∈ probes) :
    Clean (lone j [digit]) ∧ Plain j [digit] := by
  have hall : ∀ digit ∈ probes, (LF ∉ [digit] ∧ NUL ∉ [digit]) ∧
      ∀ i ∈ FormKey.all, Text.search i.szKey (encode [digit]) = none := by
    decide
  obtain ⟨⟨hbreak, hnul⟩, hname⟩ := hall digit hdigit
  have hroom := j.length_szKey
  refine ⟨clean_lone j (fun i ↦ ?_) (by simp), hbreak, hnul, ?_⟩
  · exact Text.search_eq_none_iff.mp (hname i i.mem_all)
  · rw [List.length_singleton]
    omega

/-- Another key keeps its own value. -/
theorem Isolated.ne_of_lone (h : Isolated below large o v []) {j : FormKey}
    (hj : j ≠ .minSingal) (hjk : j ≠ k) :
    saved below large j.setting (o.form (lone j [0x35#8]) v) ≠
      saved below large j.setting (o.form (lone j [0x36#8]) v) := by
  have hs : j.setting ≠ k.setting := fun heq ↦ hjk (FormKey.setting_injective heq)
  obtain ⟨hclean, hplain⟩ := clean_digit j 0x35#8 (by decide)
  obtain ⟨hclean', hplain'⟩ := clean_digit j 0x36#8 (by decide)
  rw [h _ _ hs, h _ _ hs, saved_lone hj hjk hclean hplain, saved_lone hj hjk hclean' hplain',
    value_of_small large [0x35#8] (by decide), value_of_small large [0x36#8] (by decide)]
  cases j <;> decide

/-- If the value has the name of a later field, that field loses its own value. -/
theorem Isolated.noName (h : Isolated below large o v []) (j : FormKey) (hj : j ∈ o.after) :
    ¬ j.szKey <:+: encode v := by
  intro hname
  have hjk : j ≠ k := by
    rintro rfl
    exact (List.nodup_cons.mp (List.nodup_append.mp o.nodup).2.1).1 hj
  by_cases hlast : j = .minSingal
  · -- the value of this key is not read; a line in it is
    subst hlast
    have hk : k ≠ .minSingal := Ne.symm hjk
    have hs : Setting.idelSecond ∈ unwritten := by decide
    have heq : saved below large .idelSecond
          (o.form (lone .minSingal (inject .idelSecond 0x35#8)) v) =
        saved below large .idelSecond
          (o.form (lone .minSingal (inject .idelSecond 0x36#8)) v) := by
      refine saved_shadowed k.setting_ne_idelSecond (clean_inject hs (by decide))
        (clean_inject hs (by decide)) hj hname fun i hi ↦ ?_
      rw [lone_of_ne _ hi, lone_of_ne _ hi]
    rw [h _ _ k.setting_ne_idelSecond, h _ _ k.setting_ne_idelSecond,
      saved_inject hk hs (by decide), saved_inject hk hs (by decide),
      atoi_of_small large [0x35#8] (by decide), atoi_of_small large [0x36#8] (by decide)] at heq
    exact absurd heq (by decide)
  · refine h.ne_of_lone hlast hjk (saved_shadowed ?_ (clean_digit j _ (by decide)).1
      (clean_digit j _ (by decide)).1 hj hname fun i hi ↦ ?_)
    · exact fun heq ↦ hjk (FormKey.setting_injective heq)
    · rw [lone_of_ne _ hi, lone_of_ne _ hi]

/-- Its entry has no line with the key of a later entry. -/
theorem Isolated.noLater (h : Isolated below large o v []) {j : FormKey} (hj : j ∈ k.later)
    (hlast : j ≠ .minSingal) : ∀ line ∈ entryLines k v, ¬ j.szKey ++ [EQUALS] <+: line := by
  intro line hline hkey
  have hjk : j ≠ k := ne_of_mem_of_not_mem hj k.all_eq.2.2
  refine h.ne_of_lone hlast hjk ?_
  rw [saved_form _ (clean_digit j _ (by decide)).1 h.fits h.noName,
    saved_form _ (clean_digit j _ (by decide)).1 h.fits h.noName, FormKey.setting_key hlast,
    foundIn_line hj hline hkey]

/-- Nor has it a line that the search for a key that is not written would notice. -/
theorem Isolated.probe (h : Isolated below large o v []) (hk : k ≠ .minSingal)
    (hs : s ∈ unwritten) :
    getValueLoop below s.key 1024 0 (entryLines k v) = none ∧
      indent below (entryLines k v) = 0 := by
  have hother : s ≠ k.setting := by
    simp only [unwritten, List.mem_cons, List.not_mem_nil, or_false] at hs
    rcases hs with rfl | rfl
    · exact k.setting_ne_idelSecond
    · exact fun heq ↦ hk (FormKey.setting_eq_minSignalLevel heq)
  have hread : ∀ digit ∈ probes,
      s.value large (((getValueLoop below s.key 1024 0 (entryLines k v)).or
        (some (0, [digit].rdrop (indent below (entryLines k v))))).bind
          fun r ↦ if r.1 = 0 then some r.2 else none) = .number (atoi large [digit]) := by
    intro digit hdigit
    have hsaved := h (lone .minSingal (inject s digit)) s hother
    rw [saved_inject hk hs hdigit, saved_form s (clean_inject hs hdigit) h.fits h.noName,
      foundIn, getValueLoop_injected hk hs hdigit, Option.some.injEq] at hsaved
    exact hsaved
  have hfive := hread 0x35#8 (by decide)
  have hsix := hread 0x36#8 (by decide)
  rw [atoi_of_small large [0x35#8] (by decide)] at hfive
  rw [atoi_of_small large [0x36#8] (by decide)] at hsix
  cases hloop : getValueLoop below s.key 1024 0 (entryLines k v) with
  | some r =>
      rw [hloop, Option.some_or] at hfive hsix
      exact absurd (hfive.symm.trans hsix) (by decide)
  | none =>
      refine ⟨rfl, ?_⟩
      by_contra hblank
      have hnil : [0x35#8].rdrop (indent below (entryLines k v)) = [] := by
        have hone := Nat.one_le_iff_ne_zero.mpr hblank
        rw [List.rdrop, List.length_singleton, Nat.sub_eq_zero_of_le hone, List.take_zero]
      have hempty := value_unwritten large hs []
      rw [atoi_of_small large [] (by decide)] at hempty
      rw [hloop, hnil, Option.none_or] at hfive
      exact absurd (hempty.symm.trans hfive) (by decide)

end Isolated

/-! ## The last entry -/

/-- So many lines that start with a blank. -/
def blanks (n : ℕ) : List Byte := LF :: (List.replicate n [SPACE, LF]).flatten

section Blanks

variable {below n : ℕ}

theorem mem_blanks {b : Byte} (h : b ∈ blanks n) : b = LF ∨ b = SPACE := by
  rcases List.mem_cons.mp h with rfl | h
  · exact Or.inl rfl
  · obtain ⟨line, hline, hb⟩ := List.mem_flatten.mp h
    obtain ⟨-, rfl⟩ := List.mem_replicate.mp hline
    simp only [List.mem_cons, List.not_mem_nil, or_false] at hb
    exact hb.symm

theorem clean_blanks (hn : n ≤ 510) : Clean fun _ ↦ blanks n := by
  have hletters : encode (blanks n) ⊆ [PERCENT, 0x30#8, 0x41#8, PLUS] := by
    intro b hb
    obtain ⟨c, hc, hb⟩ := List.mem_flatMap.mp hb
    have hall : ∀ c ∈ [LF, SPACE], encodeByte c ⊆ [PERCENT, 0x30#8, 0x41#8, PLUS] := by
      decide
    refine hall c ?_ hb
    rcases mem_blanks hc with rfl | rfl <;> decide
  have hkeys : ∀ i ∈ FormKey.all, ¬ i.szKey ⊆ [PERCENT, 0x30#8, 0x41#8, PLUS] := by
    decide
  constructor
  · intro i _ hname
    exact hkeys i i.mem_all fun b hb ↦ hletters (hname.subset hb)
  · intro _
    simp only [blanks, List.length_cons, List.length_flatten, List.map_replicate,
      List.sum_replicate_nat, List.length_nil]
    omega

theorem entryLines_blanks (j : FormKey) (n : ℕ) :
    entryLines j (blanks n) =
      (j.szKey ++ [EQUALS, LF]) :: (List.replicate n [SPACE, LF] ++ [[LF], [LF]]) := by
  have hnul : NUL ∉ blanks n ++ [LF] := by
    intro hmem
    rcases List.mem_append.mp hmem with hmem | hmem
    · rcases mem_blanks hmem with heq | heq <;> exact absurd heq (by decide)
    · exact absurd (List.mem_singleton.mp hmem) (by decide)
  have hlines : printEntry j (cString (blanks n ++ [LF])) =
      ((j.szKey ++ [EQUALS]) :: (List.replicate n [SPACE] ++ [[], []])).flatMap (· ++ [LF]) := by
    rw [cString_of_notMem hnul, printEntry, if_neg (by simp)]
    simp [blanks, List.flatMap_def, List.map_replicate]
  have hshort : ∀ l ∈ (j.szKey ++ [EQUALS]) :: (List.replicate n [SPACE] ++ [[], []]),
      LF ∉ l ∧ l.length < 1023 := by
    intro l hl
    rcases List.mem_cons.mp hl with rfl | hl
    · refine ⟨?_, ?_⟩
      · rw [List.mem_append, not_or]
        exact ⟨j.isName_szKey.lf_notMem, by decide⟩
      · have := j.length_szKey
        rw [List.length_append, List.length_singleton]
        omega
    · rcases List.mem_append.mp hl with hl | hl
      · obtain ⟨-, rfl⟩ := List.mem_replicate.mp hl
        decide
      · simp only [List.mem_cons, List.not_mem_nil, or_false, or_self] at hl
        rw [hl]
        decide
  rw [entryLines, hlines, Text.readLines_lines hshort]
  simp [List.map_replicate]

theorem copyValue_of_indent {szKey line : List Byte} {nSpace : ℕ} (h : line.length ≤ nSpace) :
    copyValue szKey 1024 nSpace line = (0, []) := by
  have hline : (if nSpace ≠ 0 then (line.length : ℤ) - nSpace - 1 else line.length) ≤ 0 := by
    split <;> omega
  unfold copyValue
  generalize (if nSpace ≠ 0 then (line.length : ℤ) - nSpace - 1 else line.length) = nLine at hline
  have hcopied : (if line.getLast? = some LF then nLine - szKey.length - 1
      else nLine - szKey.length).toNat = 0 := by
    split <;> omega
  simp only [hcopied, List.take_zero]
  rw [if_neg (by omega)]

/-- With more blanks counted than a line has bytes, nothing is copied. -/
theorem getValueLoop_of_indent {szKey : List Byte} (hname : IsName szKey) {nSpace : ℕ}
    {lines : List (List Byte)} (h : ∀ line ∈ lines, line.length ≤ nSpace) :
    getValueLoop below szKey 1024 nSpace lines = none ∨
      getValueLoop below szKey 1024 nSpace lines = some (0, []) := by
  induction lines generalizing nSpace with
  | nil => exact Or.inl rfl
  | cons read lines ih =>
      rw [getValueLoop_cons]
      by_cases hkey : szKey ++ [EQUALS] <+: read
      · have hlen : (cString read).length ≤ nSpace :=
          (List.takeWhile_prefix _).length_le.trans (h read List.mem_cons_self)
        refine Or.inr ?_
        rw [getValueLoop_key hname nSpace hkey, copyValue_of_indent hlen, Option.some_or]
      · have hfirst : getValueLoop below szKey 1024 nSpace [read] = none :=
          getValueLoop_eq_none nSpace fun l hl ↦ List.mem_singleton.mp hl ▸ hkey
        rw [hfirst, Option.none_or]
        exact ih fun l hl ↦ (h l (List.mem_cons_of_mem read hl)).trans (Nat.le_add_right _ _)

theorem length_entryLine_le {k : FormKey} {v line : List Byte} (hfits : v.length ≤ 1022)
    (hline : line ∈ entryLines k v) : line.length ≤ 7000 := by
  have hentry := (List.infix_of_mem_flatten hline).length_le
  rw [entryLines, Text.flatten_readLines, List.nil_append, printEntry] at hentry
  have hkey := k.length_szKey
  have hdef : k.szDef.length ≤ 1000 := by cases k <;> decide
  have hval : (cString (v ++ [LF])).length ≤ 1023 := by
    refine (List.takeWhile_prefix _).length_le.trans ?_
    rw [List.length_append, List.length_singleton]
    omega
  have hprinted : (if cString (v ++ [LF]) = [] then k.szDef else cString (v ++ [LF])).length ≤
      1023 := by
    split <;> omega
  simp only [List.length_append, List.length_cons, List.length_nil] at hentry
  omega

theorem isPrefix_blankEntry (j : FormKey) : j.szKey ++ [EQUALS] <+: j.szKey ++ [EQUALS, LF] :=
  ⟨[LF], by simp⟩

theorem indent_blanks (j : FormKey) :
    indent below (entryLines j (blanks n)) = n * (below + 1) := by
  have hfirst : indentOf below (j.szKey ++ [EQUALS, LF]) = 0 :=
    if_neg (head?_of_key j.isName_szKey (isPrefix_blankEntry j) (by decide))
  have hblank : indentOf below [SPACE, LF] = below + 1 := if_pos rfl
  have hend : indentOf below [LF] = 0 := if_neg (by decide)
  rw [entryLines_blanks]
  simp [indent, hfirst, hblank, hend, List.map_replicate]

theorem noKey_blanks {szKey : List Byte} (hname : IsName szKey) {j : FormKey}
    (hne : szKey ≠ j.szKey) :
    ∀ read ∈ entryLines j (blanks n), ¬ szKey ++ [EQUALS] <+: read := by
  intro read hread hkey
  rw [entryLines_blanks] at hread
  simp only [List.mem_cons, List.mem_append, List.mem_replicate, List.not_mem_nil, or_false,
    or_self] at hread
  rcases hread with rfl | ⟨-, rfl⟩ | rfl
  · exact hne (key_unique hname (isPrefix_blankEntry j) hkey)
  · exact head?_of_key hname hkey (show isNameByte SPACE = false by decide) rfl
  · exact head?_of_key hname hkey (show isNameByte LF = false by decide) rfl

/-- Entries of blank lines have nothing for a key that is not theirs, and each of
them raises the count. -/
theorem getValueLoop_blanks {szKey : List Byte} (hname : IsName szKey) {ks : List FormKey}
    (hne : ∀ j ∈ ks, szKey ≠ j.szKey) {dest : FormKey → List Byte}
    (hdest : ∀ j ∈ ks, dest j = blanks n) (nSpace : ℕ) (more : List (List Byte)) :
    getValueLoop below szKey 1024 nSpace (fileLines ks dest ++ more) =
      getValueLoop below szKey 1024 (nSpace + ks.length * (n * (below + 1))) more := by
  induction ks generalizing nSpace with
  | nil => simp [fileLines]
  | cons j ks ih =>
      have hrest := ih (fun i hi ↦ hne i (List.mem_cons_of_mem j hi))
        (fun i hi ↦ hdest i (List.mem_cons_of_mem j hi))
      have hnone : getValueLoop below szKey 1024 nSpace (entryLines j (blanks n)) = none :=
        getValueLoop_eq_none nSpace (noKey_blanks hname (hne j List.mem_cons_self))
      rw [fileLines_cons, List.append_assoc, List.append_assoc,
        (comment_passedOver hname j).getValueLoop_append, hdest j List.mem_cons_self,
        getValueLoop_append, hnone, Option.none_or, indent_blanks, hrest, List.length_cons,
        Nat.add_assoc, Nat.succ_mul, Nat.add_comm (n * (below + 1))]

/-- In front of the last entry fourteen others have counted blanks. -/
theorem getValueLoop_last (v : List Byte) :
    getValueLoop below Key.IDELTIME 1024 0
        (fileLines FormKey.all (Function.update (fun _ ↦ blanks 510) .minSingal v)) =
      getValueLoop below Key.IDELTIME 1024 (14 * (510 * (below + 1)))
        (entryLines .minSingal v) := by
  have hname : IsName Key.IDELTIME := Setting.isName_key .idelSecond
  have hall : FormKey.all = FormKey.all.dropLast ++ [.minSingal] := rfl
  have hlast : FormKey.minSingal ∉ FormKey.all.dropLast := by decide
  have hblanks : ∀ j ∈ FormKey.all.dropLast,
      Function.update (fun _ ↦ blanks 510) FormKey.minSingal v j = blanks 510 :=
    fun j hj ↦ Function.update_of_ne (ne_of_mem_of_not_mem hj hlast) ..
  have hkeys : ∀ j ∈ FormKey.all.dropLast, Key.IDELTIME ≠ j.szKey :=
    fun j _ ↦ unwritten_key_ne (show Setting.idelSecond ∈ unwritten by decide) j
  rw [hall, fileLines_append, getValueLoop_blanks hname hkeys hblanks, fileLines_cons,
    (comment_passedOver hname _).getValueLoop_append, Function.update_self, Nat.zero_add,
    fileLines, List.flatMap_nil, List.append_nil]
  rfl

end Blanks

section Last

variable {below : ℕ} {large : ℤ → BitVec 32} {o : FieldOrder .minSingal} {v : List Byte}

theorem Isolated.noIdle_last (h : Isolated below large o v []) :
    ∀ line ∈ entryLines .minSingal v, ¬ Key.IDELTIME ++ [EQUALS] <+: line := by
  intro line hline hkey
  have hname : IsName Key.IDELTIME := Setting.isName_key .idelSecond
  -- with the line, the setting is read as an empty text
  have hfound : getValueLoop below Key.IDELTIME 1024 (14 * (510 * (below + 1)))
      (entryLines .minSingal v) = some (0, []) := by
    have hcount : 7000 ≤ 14 * (510 * (below + 1)) := by omega
    refine (getValueLoop_of_indent hname fun l hl ↦
      (length_entryLine_le h.fits hl).trans hcount).resolve_left ?_
    rw [← Option.isNone_iff_eq_none, Bool.not_eq_true, Option.isNone_eq_false_iff]
    exact getValueLoop_isSome hname _ hline hkey
  -- without it, the default remains
  have hempty : getValueLoop below Key.IDELTIME 1024 (14 * (510 * (below + 1)))
      (entryLines .minSingal []) = none :=
    getValueLoop_eq_none _ ((plain_nil _).passedOver hname
      (unwritten_key_ne (show Setting.idelSecond ∈ unwritten by decide) _)).noKey
  have hsaved := h (fun _ ↦ blanks 510) .idelSecond (FormKey.setting_ne_idelSecond _)
  rw [saved_form _ (clean_blanks le_rfl) h.fits h.noName,
    saved_form _ (clean_blanks le_rfl) (Nat.zero_le _) fun j _ ↦ encode_nil_noName j, foundIn,
    foundIn] at hsaved
  have hvalues : Setting.idelSecond.value large (some []) =
      Setting.idelSecond.value large none := by
    rw [show Setting.idelSecond.key = Key.IDELTIME from rfl, getValueLoop_last v,
      getValueLoop_last [], hfound, hempty] at hsaved
    exact Option.some.inj hsaved
  rw [value_of_small large [] (by decide)] at hvalues
  change _ = Setting.idelSecond.default at hvalues
  exact absurd hvalues (by decide)

end Last

/-! ## Exactly the inert values -/

section Exact

variable {below : ℕ} {large : ℤ → BitVec 32} {k : FormKey} {o : FieldOrder k} {v w : List Byte}

/-- No search for another key ends in the entry. -/
theorem Isolated.noHeeded (h : Isolated below large o v []) :
    ∀ line ∈ entryLines k v, ∀ szKey ∈ k.heeded, ¬ szKey ++ [EQUALS] <+: line := by
  intro line hline szKey hheeded hkey
  by_cases hk : k = .minSingal
  · subst hk
    obtain rfl : szKey = Key.IDELTIME := by simpa [FormKey.heeded] using hheeded
    exact h.noIdle_last line hline hkey
  · have hprobe : ∀ s ∈ unwritten, ¬ s.key ++ [EQUALS] <+: line := by
      intro s hs hprefix
      have hsome : (getValueLoop below s.key 1024 0 (entryLines k v)).isSome = true :=
        getValueLoop_isSome s.isName_key 0 hline hprefix
      rw [(h.probe hk hs).1] at hsome
      cases hsome
    rw [FormKey.heeded, if_neg hk, List.mem_cons, List.mem_cons] at hheeded
    rcases hheeded with rfl | rfl | hlater
    · exact hprobe .idelSecond (by decide) hkey
    · exact hprobe .minSignalLevel (by decide) hkey
    · obtain ⟨j, hj, rfl⟩ := List.mem_map.mp hlater
      have hlast : j ≠ .minSingal := ne_of_mem_of_not_mem hj (FormKey.later_eq hk).2.2
      exact h.noLater (List.mem_of_mem_dropLast hj) hlast line hline hkey

theorem Isolated.noBlank (h : Isolated below large o v []) (hk : k ≠ .minSingal) :
    ∀ line ∈ entryLines k v, line.head? ≠ some SPACE := by
  intro line hline hblank
  have hzero := (h.probe hk (show Setting.idelSecond ∈ unwritten by decide)).2
  have hindent := List.single_le_sum (fun _ _ ↦ Nat.zero_le _) _
    (List.mem_map_of_mem (f := indentOf below) hline)
  rw [indentOf, if_pos hblank] at hindent
  rw [indent] at hzero
  omega

theorem Isolated.inert (h : Isolated below large o v []) : Inert o v where
  fits := h.fits
  noName := h.noName
  noLine := by
    have hblank : ∀ line ∈ (extraLines k v).filterMap (notice k),
        k = .minSingal ∧ line = [SPACE] := by
      intro line hmem
      obtain ⟨read, hread, hnotice⟩ := List.mem_filterMap.mp hmem
      have hline : read ∈ entryLines k v := List.mem_of_mem_tail hread
      unfold notice at hnotice
      split_ifs at hnotice with hspace hheeded
      · refine ⟨?_, (Option.some.inj hnotice).symm⟩
        by_contra hk
        exact h.noBlank hk read hline hspace
      · obtain ⟨szKey, hszKey, hkey⟩ := hheeded
        exact absurd hkey (h.noHeeded read hline szKey hszKey)
    rw [footprint]
    split_ifs with hlast
    · rfl
    · refine List.eq_nil_iff_forall_not_mem.mpr fun line hline ↦ hlast ⟨(hblank line hline).1, ?_⟩
      exact fun l hl ↦ (hblank l hl).2

/-- Next to an inert value only inert ones are alike. -/
theorem Isolated.alike (h : Isolated below large o v w) (hw : Inert o w) : Alike o v w := by
  have hempty : Isolated below large o v [] := fun u s hs ↦
    (h u s hs).trans ((hw.alike (inert_nil o)).isolated below large u s hs)
  exact hempty.inert.alike hw

end Exact

/-- Two submissions of all fields in the same order that differ only in the value of one: if
the two values are alike no other getter differs, whatever the other fields are; and of a value
next to an inert one, being alike is just what is needed for that. -/
theorem field_isolated_iff (below : ℕ) (large : ℤ → BitVec 32) (k : FormKey) (o : FieldOrder k)
    (v w : List Byte) :
    (Alike o v w → ∀ u s, s ≠ k.setting →
      saved below large s (o.form u v) = saved below large s (o.form u w)) ∧
    (Inert o w → ((∀ u s, s ≠ k.setting →
      saved below large s (o.form u v) = saved below large s (o.form u w)) ↔ Alike o v w)) :=
  ⟨fun h ↦ h.isolated below large, fun hw ↦
    ⟨fun h ↦ Isolated.alike h hw, fun h ↦ h.isolated below large⟩⟩

/-- In the order in which the form lists them the field of the server comes long before that
of the password. -/
def passwordOrder : FieldOrder .password where
  before := FormKey.earlier .password
  after := FormKey.later .password
  once := by decide

/-- So the name of its key in a password has no effect. -/
example : Alike passwordOrder Key.SERVER (ascii ['x']) := by decide

/-- A line break in the name of the server brings a line for another key. -/
theorem server_name_sets_data_port :
    saved 0 (fun _ ↦ 0#32) .dataPort
        (Submission.sampleFields (ascii ['x']) (ascii ['4', '5'])) = some (.number 1) ∧
      saved 0 (fun _ ↦ 0#32) .dataPort
        (Submission.sampleFields (ascii ['x', '\n'] ++ Key.DATA_PORT ++ ascii ['=', '7'])
          (ascii ['4', '5'])) = some (.number 7) := by
  decide

end DeviceAgent
