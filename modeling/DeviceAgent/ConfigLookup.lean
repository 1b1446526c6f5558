import DeviceAgent.ConfigFile

/-!
# The value of a key in a file

A configuration file is its lines, and the value of a key is the rest of the first
line that starts with the key and `=`.  `GetValue` gives that value unless an earlier
line starts with a blank: the blanks counted there are taken off the length of every
line that follows.  A key that starts like a comment is never found.
-/

namespace DeviceAgent

/-- The result and the value, from the lines of the file. -/
def valueIn (szKey contents : List Byte) : ℤ × List Byte :=
  match (contents.splitOn LF).find? fun line ↦ decide (szKey ++ [EQUALS] <+: line) with
  | some line => (0, line.drop (szKey.length + 1))
  | none => (-2, [])

/-- `szKeyCmp` has room for the key, `=` and the end of the string.  They are written
to it in every pass whose line is no comment, that of the empty line at the end of the
file included. -/
def KeyFits (szKey contents : List Byte) : Prop :=
  (∃ line ∈ contents.splitOn LF, line.head? ≠ some HASH) → szKey.length + 2 ≤ 1024

/-- Nothing is in the way of the first line with the key. -/
def Undisturbed (szKey contents : List Byte) : Prop :=
  ∀ before line after, contents.splitOn LF = before ++ line :: after →
    szKey ++ [EQUALS] <+: line → (∀ l ∈ before, ¬ szKey ++ [EQUALS] <+: l) →
      szKey.head? ≠ some HASH ∧
        (line = szKey ++ [EQUALS] ∨ ∀ l ∈ before ++ [line], l.head? ≠ some SPACE)

section Lookup

variable {below : ℕ} {szKey : List Byte}

/-! ## One line -/

/-- The last line of a file may lack its line break. -/
theorem copyValue_last (hlf : LF ∉ szKey) {v : List Byte} (nSpace : ℕ) (hv : LF ∉ v)
    (hroom : szKey.length + v.length + 2 ≤ 1023) :
    copyValue szKey 1024 nSpace (szKey ++ EQUALS :: v) = (0, v.rdrop nSpace) := by
  have htext : (szKey ++ EQUALS :: v).takeWhile (· != LF) = szKey ++ EQUALS :: v :=
    takeWhile_bne_self (lf_notMem_line hlf hv)
  have hlast : (szKey ++ EQUALS :: v).getLast? ≠ some LF :=
    fun h ↦ lf_notMem_line hlf hv (List.mem_of_getLast? h)
  have hlen : ((szKey ++ EQUALS :: v).length : ℤ) = szKey.length + v.length + 1 := by
    simp
    ring
  simp only [copyValue, hlen, htext, drop_line, if_neg hlast]
  rcases Nat.eq_zero_or_pos nSpace with rfl | hpos
  · simp only [ne_eq, not_true_eq_false, if_false]
    rw [if_neg (by omega), List.rdrop_zero, List.take_of_length_le (by omega)]
  · simp only [ne_eq, hpos.ne', not_false_eq_true, if_true]
    rw [if_neg (by omega), List.rdrop]
    congr 2
    omega

/-- A line starts as its key does, or with `=`. -/
theorem head?_of_isPrefix {read : List Byte} (h : szKey ++ [EQUALS] <+: read) :
    read.head? = some (szKey.headD EQUALS) := by
  obtain ⟨v, rfl⟩ := h
  cases szKey <;> rfl

/-- All lines with a key that starts like a comment are taken for comments. -/
theorem getValueLoop_of_comment (hkey : szKey.head? = some HASH) (nSpace : ℕ)
    (lines : List (List Byte)) : getValueLoop below szKey 1024 nSpace lines = none := by
  induction lines generalizing nSpace with
  | nil => rfl
  | cons read lines ih =>
      rw [getValueLoop_cons, ih, Option.or_none]
      by_cases hhash : read.head? = some HASH
      · simp [getValueLoop, hhash]
      · apply getValueLoop_eq_none
        intro l hl hprefix
        obtain rfl := List.mem_singleton.mp hl
        apply hhash
        rw [head?_of_isPrefix hprefix, List.headD_eq_head?_getD, hkey]
        rfl

theorem rdrop_eq_self_iff {v : List Byte} {n : ℕ} : v.rdrop n = v ↔ n = 0 ∨ v = [] := by
  rw [List.rdrop, List.take_eq_self_iff, ← List.length_eq_zero_iff]
  omega

theorem indent_eq_zero_iff {lines : List (List Byte)} :
    indent below lines = 0 ↔ ∀ read ∈ lines, read.head? ≠ some SPACE := by
  refine ⟨fun hzero read hread hblank ↦ ?_, indent_eq_zero⟩
  have hone : indentOf below read = 0 :=
    List.sum_eq_zero_iff.mp hzero _ (List.mem_map_of_mem hread)
  rw [indentOf, if_pos hblank] at hone
  cases hone

/-! ## The file as it is read -/

/-- Behind the lines before it, the line is read with its line break, if it has one. -/
theorem exists_read {contents : List Byte}
    (hlines : ∀ line ∈ contents.splitOn LF, line.length < 1023)
    {before after : List (List Byte)} {line : List Byte}
    (hsplit : contents.splitOn LF = before ++ line :: after) (hline : line ≠ []) :
    ∃ ending rest, Text.readLines LF 1023 [] contents =
        before.map (· ++ [LF]) ++ (line ++ ending) :: rest ∧ (ending = [LF] ∨ ending = []) := by
  obtain ⟨lines, last, hpieces, htext, hfree⟩ := Text.exists_splitOn LF contents
  have hread := Text.readLines_lines_last fun l hl ↦
    (⟨hfree l hl, hlines l (hpieces ▸ hl)⟩ : LF ∉ l ∧ l.length < 1023)
  rw [← htext] at hread
  have hsame := hpieces.symm.trans hsplit
  rcases List.eq_nil_or_concat after with rfl | ⟨more, final, rfl⟩
  · obtain ⟨rfl, hlast⟩ := List.append_inj' hsame rfl
    obtain rfl : last = line := List.singleton_inj.mp hlast
    exact ⟨[], [], by rw [hread, if_neg hline, List.append_nil], Or.inr rfl⟩
  · have hsame' : lines ++ [last] = (before ++ line :: more) ++ [final] := by
      rw [hsame]
      simp
    obtain ⟨rfl, -⟩ := List.append_inj' hsame' rfl
    exact ⟨[LF], _, by rw [hread]; simp; rfl, Or.inl rfl⟩

theorem mem_readLines {contents : List Byte}
    (hlines : ∀ line ∈ contents.splitOn LF, line.length < 1023) {read : List Byte}
    (hread : read ∈ Text.readLines LF 1023 [] contents) :
    ∃ line ∈ contents.splitOn LF, read = line ++ [LF] ∨ read = line := by
  obtain ⟨lines, last, hpieces, htext, hfree⟩ := Text.exists_splitOn LF contents
  have hall := Text.readLines_lines_last fun l hl ↦
    (⟨hfree l hl, hlines l (hpieces ▸ hl)⟩ : LF ∉ l ∧ l.length < 1023)
  rw [← htext] at hall
  rw [hall] at hread
  rcases List.mem_append.mp hread with hread | hread
  · obtain ⟨line, hline, rfl⟩ := List.mem_map.mp hread
    exact ⟨line, hpieces ▸ List.mem_append_left _ hline, Or.inl rfl⟩
  · split at hread
    · cases hread
    · obtain rfl := List.mem_singleton.mp hread
      exact ⟨read, hpieces ▸ List.mem_append_right _ (List.mem_singleton_self _), Or.inr rfl⟩

theorem not_isPrefix_read (hlf : LF ∉ szKey) {line : List Byte}
    (h : ¬ szKey ++ [EQUALS] <+: line) : ¬ szKey ++ [EQUALS] <+: line ++ [LF] := by
  have hfree : LF ∉ szKey ++ [EQUALS] := lf_notMem_line hlf List.not_mem_nil
  rwa [Text.isPrefix_append_sep hfree line []]

theorem indentOf_append (line : List Byte) {ending : List Byte}
    (hend : ending = [LF] ∨ ending = []) :
    indentOf below (line ++ ending) = indentOf below line := by
  rcases hend with rfl | rfl
  · cases line with
    | nil => rfl
    | cons b line => rfl
  · rw [List.append_nil]

theorem indent_append_line (before : List (List Byte)) (line : List Byte) {ending : List Byte}
    (hend : ending = [LF] ∨ ending = []) :
    indent below (before.map (· ++ [LF])) + indentOf below (line ++ ending) =
      indent below (before ++ [line]) := by
  have hbefore : indentOf below ∘ (· ++ [LF]) = indentOf below :=
    funext fun l ↦ indentOf_append l (Or.inl rfl)
  rw [indent, indent, List.map_map, hbefore, indentOf_append line hend, List.map_append,
    List.sum_append, List.map_singleton, List.sum_singleton]

/-- What is made of the first line with the key. -/
theorem getValueLoop_first (hlf : LF ∉ szKey) (hnul : NUL ∉ szKey)
    (hhash : szKey.head? ≠ some HASH) {before : List (List Byte)}
    (hbefore : ∀ l ∈ before, ¬ szKey ++ [EQUALS] <+: l) {v ending : List Byte}
    (hend : ending = [LF] ∨ ending = []) (hv : LF ∉ v) (hvnul : NUL ∉ v)
    (hroom : szKey.length + v.length + 2 ≤ 1023) (rest : List (List Byte)) :
    getValueLoop below szKey 1024 0
        (before.map (· ++ [LF]) ++ (szKey ++ EQUALS :: v ++ ending) :: rest) =
      some (0, v.rdrop (indent below (before ++ [szKey ++ EQUALS :: v]))) := by
  have hprefix : szKey ++ [EQUALS] <+: szKey ++ EQUALS :: v ++ ending := ⟨v ++ ending, by simp⟩
  have hnone : getValueLoop below szKey 1024 0 (before.map (· ++ [LF])) = none := by
    apply getValueLoop_eq_none
    intro read hread
    obtain ⟨l, hl, rfl⟩ := List.mem_map.mp hread
    exact not_isPrefix_read hlf (hbefore l hl)
  have hhead : (szKey ++ EQUALS :: v ++ ending).head? ≠ some HASH := by
    rw [head?_of_isPrefix hprefix]
    cases szKey with
    | nil => decide
    | cons b szKey => exact hhash
  have hstring : cString (szKey ++ EQUALS :: v ++ ending) = szKey ++ EQUALS :: v ++ ending := by
    apply cString_of_notMem
    have hnulEnd : NUL ∉ ending := by
      rcases hend with rfl | rfl
      · decide
      · exact List.not_mem_nil
    simp only [List.mem_append, List.mem_cons, not_or]
    exact ⟨⟨hnul, by decide, hvnul⟩, hnulEnd⟩
  have hcopy : ∀ nSpace, copyValue szKey 1024 nSpace (szKey ++ EQUALS :: v ++ ending) =
      (0, v.rdrop nSpace) := by
    intro nSpace
    rcases hend with rfl | rfl
    · exact copyValue_line hlf nSpace hv hroom
    · rw [List.append_nil]
      exact copyValue_last hlf nSpace hv hroom
  rw [getValueLoop_append, hnone, Option.none_or, getValueLoop_cons,
    getValueLoop_of_isPrefix hlf hnul _ hhead hprefix, Option.some_or, hstring, hcopy,
    Nat.zero_add, indent_append_line before _ hend]

end Lookup

/-! ## Whole files -/

/-- There is one first line with the key. -/
theorem first_unique {szKey : List Byte} {before before' after after' : List (List Byte)}
    {line line' : List Byte} (hsame : before ++ line :: after = before' ++ line' :: after')
    (hline : szKey ++ [EQUALS] <+: line) (hline' : szKey ++ [EQUALS] <+: line')
    (hbefore : ∀ l ∈ before, ¬ szKey ++ [EQUALS] <+: l)
    (hbefore' : ∀ l ∈ before', ¬ szKey ++ [EQUALS] <+: l) : before = before' ∧ line = line' := by
  have htake : ∀ (before after : List (List Byte)) (line : List Byte),
      szKey ++ [EQUALS] <+: line → (∀ l ∈ before, ¬ szKey ++ [EQUALS] <+: l) →
      (before ++ line :: after).takeWhile (fun l ↦ !decide (szKey ++ [EQUALS] <+: l)) = before := by
    intro before after line hline hbefore
    rw [List.takeWhile_append_of_pos (by simpa using hbefore),
      List.takeWhile_cons_of_neg (by simpa using hline), List.append_nil]
  have heq : before = before' := by
    rw [← htake before after line hline hbefore, hsame, htake before' after' line' hline' hbefore']
  subst heq
  exact ⟨rfl, (List.cons.inj (List.append_cancel_left hsame)).1⟩

theorem undisturbed_iff {contents szKey line : List Byte} {before after : List (List Byte)}
    (hsplit : contents.splitOn LF = before ++ line :: after) (hkey : szKey ++ [EQUALS] <+: line)
    (hbefore : ∀ l ∈ before, ¬ szKey ++ [EQUALS] <+: l) :
    Undisturbed szKey contents ↔ szKey.head? ≠ some HASH ∧
      (line = szKey ++ [EQUALS] ∨ ∀ l ∈ before ++ [line], l.head? ≠ some SPACE) := by
  constructor
  · intro h
    exact h before line after hsplit hkey hbefore
  · intro h before' line' after' hsplit' hkey' hbefore'
    obtain ⟨rfl, rfl⟩ := first_unique (hsplit.symm.trans hsplit') hkey hkey' hbefore hbefore'
    exact h

section File

variable {below : ℕ} {contents szKey : List Byte} {before after : List (List Byte)} {v : List Byte}

theorem getValue_of_comment (hkey : szKey.head? = some HASH) :
    getValue below (some contents) szKey 1024 = (-2, []) := by
  rw [getValue, getValueLoop_of_comment hkey, Option.getD_none]

theorem getValue_of_absent (hlines : ∀ line ∈ contents.splitOn LF, line.length < 1023)
    (hlf : LF ∉ szKey) (h : ∀ line ∈ contents.splitOn LF, ¬ szKey ++ [EQUALS] <+: line) :
    getValue below (some contents) szKey 1024 = (-2, []) := by
  rw [getValue, getValueLoop_eq_none, Option.getD_none]
  intro read hread
  obtain ⟨line, hline, rfl | rfl⟩ := mem_readLines hlines hread
  · exact not_isPrefix_read hlf (h line hline)
  · exact h read hline

/-- The value of the first line with the key, cut by the blanks counted so far. -/
theorem getValue_of_first (hlines : ∀ line ∈ contents.splitOn LF, line.length < 1023)
    (hnul : NUL ∉ contents) (hkeynul : NUL ∉ szKey) (hlf : LF ∉ szKey)
    (hhash : szKey.head? ≠ some HASH)
    (hsplit : contents.splitOn LF = before ++ (szKey ++ EQUALS :: v) :: after)
    (hbefore : ∀ l ∈ before, ¬ szKey ++ [EQUALS] <+: l) :
    getValue below (some contents) szKey 1024 =
      (0, v.rdrop (indent below (before ++ [szKey ++ EQUALS :: v]))) := by
  have hmem : szKey ++ EQUALS :: v ∈ contents.splitOn LF := by
    rw [hsplit]
    simp
  obtain ⟨hfree, hsub⟩ := Text.of_mem_splitOn hmem
  have hv : LF ∉ v := fun h ↦ hfree (by simp [h])
  have hvnul : NUL ∉ v := fun h ↦ hnul (hsub (by simp [h]))
  have hroom : szKey.length + v.length + 2 ≤ 1023 := by
    have hshort := hlines _ hmem
    rw [List.length_append, List.length_cons] at hshort
    omega
  obtain ⟨ending, rest, hread, hend⟩ := exists_read hlines hsplit (by simp)
  rw [getValue, hread, getValueLoop_first hlf hkeynul hhash hbefore hend hv hvnul hroom,
    Option.getD_some]

end File

/-- `GetValue` finds the value exactly if nothing is in the way of it. -/
theorem getValue_eq_valueIn_iff (below : ℕ) (contents szKey : List Byte)
    (hlines : ∀ line ∈ contents.splitOn LF, line.length < 1023) (hnul : NUL ∉ contents)
    (hkeynul : NUL ∉ szKey) (hlf : LF ∉ szKey) :
    (KeyFits szKey contents ∧
        getValue below (some contents) szKey 1024 = valueIn szKey contents) ↔
      KeyFits szKey contents ∧ Undisturbed szKey contents := by
  refine and_congr_right fun _ ↦ ?_
  rw [valueIn]
  cases hfind : (contents.splitOn LF).find? fun line ↦ decide (szKey ++ [EQUALS] <+: line) with
  | none =>
      have hnone : ∀ line ∈ contents.splitOn LF, ¬ szKey ++ [EQUALS] <+: line := by
        simpa using hfind
      refine iff_of_true (getValue_of_absent hlines hlf hnone) ?_
      intro before line after hsplit hkey _
      exact absurd hkey (hnone line (by rw [hsplit]; simp))
  | some line =>
      obtain ⟨hfound, before, after, hsplit, hnot⟩ := List.find?_eq_some_iff_append.mp hfind
      have hkey : szKey ++ [EQUALS] <+: line := of_decide_eq_true hfound
      have hbefore : ∀ l ∈ before, ¬ szKey ++ [EQUALS] <+: l := by simpa using hnot
      rw [undisturbed_iff hsplit hkey hbefore]
      obtain ⟨v, rfl⟩ := hkey
      rw [List.append_assoc, List.singleton_append] at hsplit ⊢
      dsimp only
      rw [drop_line]
      by_cases hhash : szKey.head? = some HASH
      · rw [getValue_of_comment hhash]
        exact iff_of_false (by simp) fun h ↦ h.1 hhash
      · have hempty : szKey ++ EQUALS :: v = szKey ++ [EQUALS] ↔ v = [] := by simp
        rw [getValue_of_first hlines hnul hkeynul hlf hhash hsplit hbefore, Prod.mk.injEq,
          rdrop_eq_self_iff, indent_eq_zero_iff, hempty]
        simp only [true_and, ne_eq, hhash, not_false_eq_true]
        exact Or.comm

/-- A file with this interval, and a line in front of it. -/
def intervalBehind (line : List Char) : List Byte :=
  ascii line ++ LF :: Key.INTERVAL ++ EQUALS :: ascii ['6', '0', '0'] ++ [LF]

theorem getValue_behind_comment :
    getValue 0 (some (intervalBehind ['#'])) Key.INTERVAL 1024 =
      (0, ascii ['6', '0', '0']) := by
  have hlines : ∀ line ∈ (intervalBehind ['#']).splitOn LF, line.length < 1023 := by
    decide
  have hfits : KeyFits Key.INTERVAL (intervalBehind ['#']) := fun _ ↦ by decide
  have hvalue : valueIn Key.INTERVAL (intervalBehind ['#']) = (0, ascii ['6', '0', '0']) := by
    decide
  rw [← hvalue]
  refine ((getValue_eq_valueIn_iff 0 (intervalBehind ['#']) Key.INTERVAL hlines
    (by decide) (by decide) (by decide)).mpr ⟨hfits, ?_⟩).2
  have hsplit : (intervalBehind ['#']).splitOn LF =
      [[HASH]] ++ (Key.INTERVAL ++ EQUALS :: ascii ['6', '0', '0']) :: [[]] := by decide
  rw [undisturbed_iff hsplit (by decide) (by decide)]
  exact ⟨by decide, Or.inr (by decide)⟩

/-- A line that holds a blank and nothing else costs the value its last digit, and a key
that starts with `#` is not found. -/
theorem getValue_behind_blank :
    valueIn Key.INTERVAL (intervalBehind [' ']) = (0, ascii ['6', '0', '0']) ∧
      getValue 0 (some (intervalBehind [' '])) Key.INTERVAL 1024 = (0, ascii ['6', '0']) ∧
      valueIn [HASH] (ascii ['#', '=', '1']) = (0, ascii ['1']) ∧
      getValue 0 (some (ascii ['#', '=', '1'])) [HASH] 1024 = (-2, []) := by
  decide

end DeviceAgent
