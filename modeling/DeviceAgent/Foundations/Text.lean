import Mathlib

/-!
# Searching a text and reading it line by line

The first occurrence of a word in a text that is put together from parts with a
separator the word does not contain, and the lines of a text as a reader with a
bounded buffer gets them.
-/

namespace Text

variable {α : Type*} [DecidableEq α]

/-! ## The first occurrence of a word -/

section Search

variable {word : List α} {sep : α}

/-- The text from the first occurrence of `word` on. -/
def search (word : List α) : List α → Option (List α)
  | [] => if word = [] then some [] else none
  | a :: rest => if word <+: a :: rest then some (a :: rest) else search word rest

theorem search_of_isPrefix {text : List α} (h : word <+: text) : search word text = some text := by
  cases text with
  | nil => exact if_pos (List.prefix_nil.mp h)
  | cons a rest => exact if_pos h

theorem search_spec {text found : List α} (h : search word text = some found) :
    found <:+ text ∧ word <+: found := by
  induction text with
  | nil =>
      by_cases hword : word = []
      · obtain rfl : [] = found := by simpa [search, hword] using h
        exact ⟨List.suffix_refl [], hword ▸ List.prefix_refl []⟩
      · simp [search, hword] at h
  | cons a rest ih =>
      by_cases hhere : word <+: a :: rest
      · obtain rfl : a :: rest = found := by simpa [search, hhere] using h
        exact ⟨List.suffix_refl _, hhere⟩
      · obtain ⟨hsuffix, hprefix⟩ := ih (by simpa [search, hhere] using h)
        exact ⟨hsuffix.trans (List.suffix_cons a rest), hprefix⟩

theorem search_eq_none_iff {text : List α} : search word text = none ↔ ¬ word <:+: text := by
  induction text with
  | nil => simp [search]
  | cons a rest ih =>
      rw [List.infix_cons_iff, not_or, ← ih]
      by_cases hhere : word <+: a :: rest <;> simp [search, hhere]

theorem search_isSome_iff {text : List α} : (search word text).isSome = true ↔ word <:+: text := by
  rw [Option.isSome_iff_ne_none, Ne, search_eq_none_iff, not_not]

/-- What is found in a beginning of the text stays found when more arrives. -/
theorem search_append {text found : List α} (h : search word text = some found)
    (more : List α) : search word (text ++ more) = some (found ++ more) := by
  induction text with
  | nil =>
      obtain ⟨hsuffix, hword⟩ := search_spec h
      obtain rfl : found = [] := List.suffix_nil.mp hsuffix
      obtain rfl : word = [] := List.prefix_nil.mp hword
      exact search_of_isPrefix (List.nil_prefix)
  | cons a rest ih =>
      by_cases hhere : word <+: a :: rest
      · obtain rfl : a :: rest = found := by simpa [search, hhere] using h
        exact search_of_isPrefix (hhere.trans (List.prefix_append _ more))
      · have hrest : search word rest = some found := by simpa [search, hhere] using h
        obtain ⟨hsuffix, hword⟩ := search_spec hrest
        have hnot : ¬ word <+: a :: (rest ++ more) := fun hlonger ↦
          hhere (List.prefix_of_prefix_length_le hlonger (List.prefix_append (a :: rest) more)
            (hword.length_le.trans (hsuffix.length_le.trans (Nat.le_succ _))))
        rw [List.cons_append, search, if_neg hnot]
        exact ih hrest

theorem search_singleton (a : α) (text : List α) :
    search [a] text = if a ∈ text then some (text.dropWhile (· != a)) else none := by
  induction text with
  | nil => rfl
  | cons b rest ih =>
      by_cases hb : a = b
      · subst hb
        simp [search]
      · have hne : (b != a) = true := bne_iff_ne.mpr (Ne.symm hb)
        simp [search, hb, ih, hne]

omit [DecidableEq α] in
/-- The lengths at which a text that arrives from the left holds the word. -/
def completions (word text : List α) : Set ℕ := {n | word <:+: text.take n}

omit [DecidableEq α] in
theorem mem_completions_iff {text : List α} {w n : ℕ} (hw : IsLeast (completions word text) w) :
    word <:+: text.take n ↔ w ≤ n := by
  refine ⟨fun h ↦ hw.2 h, fun h ↦ ?_⟩
  have hprefix : text.take w <+: text.take n := List.take_prefix_take_left h
  exact hw.1.trans hprefix.isInfix

omit [DecidableEq α] in
theorem exists_isLeast_completions {text : List α} (h : word <:+: text) :
    ∃ w, IsLeast (completions word text) w := by
  classical
  have hwhole : ∃ n, word <:+: text.take n := ⟨text.length, by rwa [List.take_length]⟩
  exact ⟨Nat.find hwhole, Nat.find_spec hwhole, fun n hn ↦ Nat.find_min' hwhole hn⟩

omit [DecidableEq α] in
theorem le_length_of_isLeast {text : List α} {w : ℕ} (hw : IsLeast (completions word text) w) :
    w ≤ text.length := by
  have hwhole : word <:+: text := hw.1.trans (List.take_prefix w text).isInfix
  exact (mem_completions_iff hw).mp (by rwa [List.take_length])

omit [DecidableEq α] in
/-- A word without the separator does not reach over it. -/
theorem isPrefix_append_sep (hsep : sep ∉ word) (text more : List α) :
    word <+: text ++ sep :: more ↔ word <+: text := by
  refine ⟨fun h ↦ ?_, fun h ↦ h.trans (List.prefix_append text _)⟩
  rcases Nat.lt_or_ge text.length word.length with hlt | hle
  · have hover : text ++ [sep] <+: word := by
      refine List.prefix_of_prefix_length_le ?_ h (by simpa using hlt)
      exact ⟨more, by simp⟩
    exact absurd (hover.subset (by simp)) hsep
  · exact List.prefix_of_prefix_length_le h (List.prefix_append text _) hle

omit [DecidableEq α] in
theorem isPrefix_takeWhile {p : α → Bool} {text : List α} (h : word <+: text)
    (hword : ∀ a ∈ word, p a = true) : word <+: text.takeWhile p := by
  obtain ⟨rest, rfl⟩ := h
  rw [List.takeWhile_append_of_pos hword]
  exact List.prefix_append word _

theorem search_append_sep (hword : word ≠ []) (hsep : sep ∉ word) (text more : List α) :
    search word (text ++ sep :: more) =
      ((search word text).map (· ++ sep :: more)).or (search word more) := by
  induction text with
  | nil =>
      have hhere : ¬ word <+: [] ++ sep :: more := by
        rw [isPrefix_append_sep hsep, List.prefix_nil]
        exact hword
      rw [List.nil_append] at hhere ⊢
      simp [search, hhere, hword]
  | cons a rest ih =>
      have hiff := isPrefix_append_sep hsep (a :: rest) more
      rw [List.cons_append] at hiff ⊢
      by_cases hhere : word <+: a :: rest
      · simp [search, hiff, hhere]
      · simp [search, hiff, hhere, ih]

theorem isInfix_append_sep (hword : word ≠ []) (hsep : sep ∉ word) {text more : List α} :
    word <:+: text ++ sep :: more ↔ word <:+: text ∨ word <:+: more := by
  have h := search_append_sep hword hsep text more
  rw [← not_iff_not, not_or, ← search_eq_none_iff, ← search_eq_none_iff, ← search_eq_none_iff, h]
  cases search word text <;> simp

omit [DecidableEq α] in
/-- Two names with the separator behind them begin alike only if they are equal. -/
theorem eq_of_isPrefix_sep {name : List α} (hword : sep ∉ word) (hname : sep ∉ name)
    {more : List α} (h : word ++ [sep] <+: name ++ sep :: more) : word = name := by
  obtain ⟨rest, hrest⟩ := h
  have heq : word ++ sep :: rest = name ++ sep :: more := by simpa using hrest
  have hle : word <+: name := by
    rw [← isPrefix_append_sep hword, ← heq]
    exact List.prefix_append word _
  have hge : name <+: word := by
    rw [← isPrefix_append_sep hname, heq]
    exact List.prefix_append name _
  exact hle.eq_of_length_le hge.length_le

end Search

/-! ## Reading line by line -/

section Lines

variable {nl : α} {room : ℕ}

/-- The pieces that a reader gets who stops behind each `nl` and whenever his
buffer of `room` symbols is full; `acc` is what he has in it so far. -/
def readLines (nl : α) (room : ℕ) : List α → List α → List (List α)
  | acc, [] => if acc = [] then [] else [acc]
  | acc, a :: rest =>
      if a = nl ∨ acc.length + 1 = room then (acc ++ [a]) :: readLines nl room [] rest
      else readLines nl room (acc ++ [a]) rest

theorem readLines_append {word : List α} (hnl : nl ∉ word) {acc : List α}
    (hroom : acc.length + word.length < room) (more : List α) :
    readLines nl room acc (word ++ more) = readLines nl room (acc ++ word) more := by
  induction word generalizing acc with
  | nil => simp
  | cons a word ih =>
      rw [List.mem_cons, not_or] at hnl
      rw [List.length_cons] at hroom
      have hopen : ¬ (a = nl ∨ acc.length + 1 = room) := by
        rintro (rfl | hfull)
        · exact hnl.1 rfl
        · omega
      rw [List.cons_append, readLines, if_neg hopen, ih hnl.2 (by simp; omega)]
      simp

/-- A short line is read whole. -/
theorem readLines_line {line : List α} (hnl : nl ∉ line) (hroom : line.length < room)
    (more : List α) :
    readLines nl room [] (line ++ nl :: more) = (line ++ [nl]) :: readLines nl room [] more := by
  rw [readLines_append hnl (by simpa using hroom), readLines, if_pos (Or.inl rfl), List.nil_append]

/-- Behind the end of a line reading starts afresh. -/
theorem readLines_append_nl (acc text more : List α) :
    readLines nl room acc (text ++ nl :: more) =
      readLines nl room acc (text ++ [nl]) ++ readLines nl room [] more := by
  induction text generalizing acc with
  | nil => simp [readLines]
  | cons a text ih =>
      by_cases hend : a = nl ∨ acc.length + 1 = room
      · simp [readLines, hend, ih]
      · simp [readLines, hend, ih]

theorem readLines_flatMap {β : Type*} (parts : List β) (text : β → List α) :
    readLines nl room [] (parts.flatMap fun p ↦ text p ++ [nl]) =
      parts.flatMap fun p ↦ readLines nl room [] (text p ++ [nl]) := by
  induction parts with
  | nil => rfl
  | cons p parts ih =>
      rw [List.flatMap_cons, List.append_assoc, List.singleton_append, readLines_append_nl, ih,
        List.flatMap_cons]

/-- A text of short lines is read line by line. -/
theorem readLines_lines {lines : List (List α)} (h : ∀ l ∈ lines, nl ∉ l ∧ l.length < room) :
    readLines nl room [] (lines.flatMap (· ++ [nl])) = lines.map (· ++ [nl]) := by
  induction lines with
  | nil => rfl
  | cons l lines ih =>
      obtain ⟨hnl, hroom⟩ := h l List.mem_cons_self
      rw [List.flatMap_cons, List.append_assoc, List.singleton_append, readLines_line hnl hroom,
        ih fun l' hl' ↦ h l' (List.mem_cons_of_mem l hl'), List.map_cons]

omit [DecidableEq α] in
/-- The pieces between the separators: each but the last had one behind it. -/
theorem exists_splitOn [BEq α] [LawfulBEq α] (nl : α) (text : List α) :
    ∃ lines last, text.splitOn nl = lines ++ [last] ∧
      text = lines.flatMap (· ++ [nl]) ++ last ∧ ∀ l ∈ lines ++ [last], nl ∉ l := by
  induction text with
  | nil => exact ⟨[], [], rfl, rfl, by simp⟩
  | cons a text ih =>
      obtain ⟨lines, last, hsplit, htext, hfree⟩ := ih
      have hcons : (a :: text).splitOn nl =
          if a == nl then [] :: (lines ++ [last]) else (lines ++ [last]).modifyHead (a :: ·) := by
        rw [← hsplit]
        exact List.splitOnP_cons_eq_if_modifyHead a text
      rw [hcons]
      by_cases ha : a = nl
      · refine ⟨[] :: lines, last, by simp [ha], by simp [ha, ← htext], ?_⟩
        simpa using hfree
      · have hne : ¬ nl = a := fun h ↦ ha h.symm
        rw [if_neg (by simpa using ha)]
        cases lines with
        | nil =>
            refine ⟨[], a :: last, rfl, by simpa using htext, ?_⟩
            simpa [hne] using hfree
        | cons l lines =>
            refine ⟨(a :: l) :: lines, last, rfl, by simpa using htext, ?_⟩
            simpa [hne] using hfree

omit [DecidableEq α] in
theorem of_mem_splitOn [BEq α] [LawfulBEq α] {text l : List α} (h : l ∈ text.splitOn nl) :
    nl ∉ l ∧ l ⊆ text := by
  obtain ⟨lines, last, hsplit, rfl, hfree⟩ := exists_splitOn nl text
  rw [hsplit] at h
  refine ⟨hfree l h, fun a ha ↦ ?_⟩
  rcases List.mem_append.mp h with hl | hl
  · exact List.mem_append_left _ (List.mem_flatMap.mpr ⟨l, hl, List.mem_append_left _ ha⟩)
  · rw [List.mem_singleton.mp hl] at ha
    exact List.mem_append_right _ ha

/-- A text whose lines are short is read line by line; the last one need not be ended. -/
theorem readLines_lines_last {lines : List (List α)} {last : List α}
    (h : ∀ l ∈ lines ++ [last], nl ∉ l ∧ l.length < room) :
    readLines nl room [] (lines.flatMap (· ++ [nl]) ++ last) =
      lines.map (· ++ [nl]) ++ if last = [] then [] else [last] := by
  induction lines with
  | nil =>
      obtain ⟨hnl, hroom⟩ := h last (by simp)
      have hread : readLines nl room [] (last ++ []) = readLines nl room ([] ++ last) [] :=
        readLines_append hnl (by simpa using hroom) []
      simpa [readLines] using hread
  | cons l lines ih =>
      obtain ⟨hnl, hroom⟩ := h l (by simp)
      rw [List.flatMap_cons, List.append_assoc, List.append_assoc, List.singleton_append,
        readLines_line hnl hroom, ih fun l' hl' ↦ h l' (List.mem_cons_of_mem l hl'),
        List.map_cons, List.cons_append]

theorem flatten_readLines (acc text : List α) :
    (readLines nl room acc text).flatten = acc ++ text := by
  induction text generalizing acc with
  | nil => by_cases hacc : acc = [] <;> simp [readLines, hacc]
  | cons a text ih =>
      by_cases hend : a = nl ∨ acc.length + 1 = room <;> simp [readLines, hend, ih]

/-- The first piece begins with what is in the buffer. -/
theorem readLines_head {acc : List α} (hacc : acc ≠ []) (text : List α) :
    ∃ line rest, readLines nl room acc text = line :: rest ∧ acc <+: line := by
  induction text generalizing acc with
  | nil => exact ⟨acc, [], by simp [readLines, hacc], List.prefix_refl acc⟩
  | cons a text ih =>
      by_cases hend : a = nl ∨ acc.length + 1 = room
      · exact ⟨acc ++ [a], readLines nl room [] text, by simp [readLines, hend],
          List.prefix_append acc _⟩
      · obtain ⟨line, rest, heq, hprefix⟩ := ih (show acc ++ [a] ≠ [] by simp)
        exact ⟨line, rest, by simpa [readLines, hend] using heq,
          (List.prefix_append acc _).trans hprefix⟩

end Lines

end Text
