import DeviceAgent.AtResponse

/-!
# The signal level

`GetSignalLevel` waits for the tag `_ISIG:` and then for a newline, and takes any
newline of the cache for the end of the report.  The text it hands to `atof` is the
report exactly if no read that ends too early shows a newline.
-/

namespace DeviceAgent

open Procedure AtLine

/-- `_ISIG:`. -/
def isigTag : List Byte := ascii ['_', 'I', 'S', 'I', 'G', ':']

/-- `Level` and what `erase` leaves: `substr` is given the position `end` for a length,
and without a newline behind the tag `end` is `npos`. -/
def cutLevel (strCache : List Byte) : List Byte × List Byte :=
  -- the wait before has seen the tag
  let behind := ((Text.search isigTag strCache).getD []).drop isigTag.length
  match Text.search [LF] behind with
  | some rest => (behind.take (strCache.length - rest.length), rest)
  | none => (behind, [])

/-- The text handed to `atof`; `none` if 0.0 is returned without asking it. -/
def getSignalLevel (tagReadings lineReadings : List ℤ) : AT (Option (List Byte)) := do
  if ← waitATResponse isigTag 10 false tagReadings then
    if ← waitATResponse [LF] 1 false lineReadings then
      let strCache := (← get).strCache
      modify fun line ↦ { line with strCache := (cutLevel strCache).2 }
      return some (cString (cutLevel strCache).1)
  return none

/-! ## Reports -/

/-- The text between the first tag and the next newline, and what follows from this
newline on. -/
def signalReport (text : List Byte) : Option (List Byte × List Byte) :=
  (Text.search isigTag text).bind fun found ↦
    let behind := found.drop isigTag.length
    if LF ∈ behind then some (behind.takeWhile (· != LF), behind.dropWhile (· != LF)) else none

/-- Everything that is in the cache or still to come. -/
def AtLine.pending (line : AtLine) : List Byte :=
  line.strCache ++ line.recvs.flatMap Chunk.bytes

theorem takeWhile_eq_takeWhile_append_iff (p : Byte → Bool) (begin more : List Byte) :
    begin.takeWhile p = (begin ++ more).takeWhile p ↔
      more.length ≤ ((begin ++ more).dropWhile p).length := by
  have hlength := congrArg List.length
    (List.takeWhile_append_dropWhile (p := p) (l := begin ++ more))
  rw [List.length_append, List.length_append] at hlength
  rw [List.takeWhile_append] at hlength ⊢
  split_ifs at hlength ⊢ with hall
  · have hself : begin.takeWhile p = begin := (List.takeWhile_prefix p).eq_of_length hall
    rw [List.length_append] at hlength
    rw [hself, List.self_eq_append_right, ← List.length_eq_zero_iff]
    omega
  · have hle := (List.takeWhile_prefix p (l := begin)).length_le
    exact iff_of_true rfl (by omega)

theorem takeWhile_comm (p q : Byte → Bool) (text : List Byte) :
    (text.takeWhile p).takeWhile q = (text.takeWhile q).takeWhile p := by
  rw [List.takeWhile_takeWhile, List.takeWhile_takeWhile]
  simp only [and_comm]

/-- `substr` takes too much, but up to its first newline `Level` is what stands behind
the tag. -/
theorem takeWhile_cutLevel {strCache behind : List Byte}
    (hfound : Text.search isigTag strCache = some (isigTag ++ behind)) :
    (cutLevel strCache).1.takeWhile (· != LF) = behind.takeWhile (· != LF) := by
  have hlength := (Text.search_spec hfound).1.length_le
  rw [List.length_append] at hlength
  unfold cutLevel
  rw [hfound, Option.getD_some, List.drop_left]
  dsimp only
  rw [Text.search_singleton]
  split_ifs with hlf
  · have hcut := takeWhile_eq_takeWhile_append_iff (· != LF)
      (behind.take (strCache.length - (behind.dropWhile (· != LF)).length))
      (behind.drop (strCache.length - (behind.dropWhile (· != LF)).length))
    rw [List.take_append_drop] at hcut
    refine hcut.mpr ?_
    rw [List.length_drop]
    omega
  · rfl

theorem search_of_isInfix {strCache : List Byte} (htag : isigTag <:+: strCache) :
    ∃ behind, Text.search isigTag strCache = some (isigTag ++ behind) := by
  obtain ⟨found, hfound⟩ : ∃ found, Text.search isigTag strCache = some found :=
    Option.ne_none_iff_exists'.mp fun hnone ↦ Text.search_eq_none_iff.mp hnone htag
  obtain ⟨-, behind, rfl⟩ := Text.search_spec hfound
  exact ⟨behind, hfound⟩

theorem signalReport_append {strCache behind text rest : List Byte}
    (hfound : Text.search isigTag strCache = some (isigTag ++ behind)) (more : List Byte) :
    signalReport (strCache ++ more) = some (text, rest) ↔
      LF ∈ behind ++ more ∧ (behind ++ more).takeWhile (· != LF) = text ∧
        (behind ++ more).dropWhile (· != LF) = rest := by
  rw [signalReport, Text.search_append hfound, Option.bind_some, List.append_assoc, List.drop_left]
  dsimp only
  rw [Option.ite_none_right_eq_some, Option.some.injEq, Prod.mk.injEq]

/-- The level is the report exactly if all of the report's text is in the cache and
`atof` can see it. -/
theorem cutLevel_iff {strCache more text rest : List Byte} (htag : isigTag <:+: strCache)
    (hreport : signalReport (strCache ++ more) = some (text, rest)) :
    (cString (cutLevel strCache).1).takeWhile (· != LF) = text ↔
      NUL ∉ text ∧ more.length ≤ rest.length := by
  obtain ⟨behind, hfound⟩ := search_of_isInfix htag
  obtain ⟨-, rfl, rfl⟩ := (signalReport_append hfound more).mp hreport
  rw [← takeWhile_eq_takeWhile_append_iff, cString, takeWhile_comm, takeWhile_cutLevel hfound]
  have hbegin : behind.takeWhile (· != LF) <+: (behind ++ more).takeWhile (· != LF) := by
    rw [List.takeWhile_append]
    split_ifs
    · exact (List.takeWhile_prefix _).trans (List.prefix_append _ _)
    · exact List.prefix_rfl
  constructor
  · intro h
    have hlength := (List.takeWhile_prefix (· != NUL) (l := behind.takeWhile (· != LF))).length_le
    rw [h] at hlength
    have hsame := hbegin.eq_of_length_le hlength
    rw [← hsame] at h ⊢
    refine ⟨fun hnul ↦ ?_, rfl⟩
    simpa using List.takeWhile_eq_self_iff.mp h NUL hnul
  · rintro ⟨hnul, hsame⟩
    rw [hsame]
    refine List.takeWhile_eq_self_iff.mpr fun b hb ↦ ?_
    exact bne_iff_ne.mpr (ne_of_mem_of_not_mem hb hnul)

/-- What is left when the report's text was complete. -/
theorem cutLevel_rest {strCache more text rest : List Byte} (htag : isigTag <:+: strCache)
    (hreport : signalReport (strCache ++ more) = some (text, rest))
    (hcomplete : more.length ≤ rest.length) : (cutLevel strCache).2 ++ more = rest := by
  obtain ⟨behind, hfound⟩ := search_of_isInfix htag
  obtain ⟨-, rfl, rfl⟩ := (signalReport_append hfound more).mp hreport
  unfold cutLevel
  rw [hfound, Option.getD_some, List.drop_left]
  dsimp only
  rw [Text.search_singleton]
  split_ifs with hlf
  · have hfirst : (behind.dropWhile (· != LF)).isEmpty = false := by
      rw [List.isEmpty_eq_false_iff, Ne, List.dropWhile_eq_nil_iff]
      intro hnone
      simpa using hnone LF hlf
    rw [List.dropWhile_append, hfirst]
    rfl
  · have hnone : behind.dropWhile (· != LF) = [] :=
      List.dropWhile_eq_nil_iff.mpr fun b hb ↦ bne_iff_ne.mpr (ne_of_mem_of_not_mem hb hlf)
    rw [List.dropWhile_append, hnone] at hcomplete ⊢
    exact ((List.dropWhile_suffix _).eq_of_length_le hcomplete).symm

/-! ## One call -/

/-- What the reads of a call must show: no `ERROR:` before the tag, and from the read
behind the tag on no `ERROR:` without a newline and no newline, of whatever line, before
the report is complete up to `rest`. -/
structure Exposed (line : AtLine) (rest : List Byte) : Prop where
  tag : ∀ k, 1 ≤ k → errorTag <:+: line.seen k → isigTag <:+: line.seen k
  newline : ∀ k, 1 ≤ k → isigTag <:+: line.seen k → errorTag <:+: line.seen (k + 1) →
    LF ∈ line.seen (k + 1)
  complete : ∀ k, 1 ≤ k → isigTag <:+: line.seen k → LF ∈ line.seen (k + 1) →
    line.pending.length ≤ (line.seen (k + 1)).length + rest.length

variable {line : AtLine} {tagReadings lineReadings : List ℤ}

theorem AtLine.isInfix_seen (line : AtLine) {word : List Byte} {j k : ℕ} (hle : j ≤ k)
    (h : word <:+: line.seen j) : word <:+: line.seen k :=
  h.trans (line.seen_isPrefix hle).isInfix

theorem pending_of_length_le {k : ℕ} (h : line.recvs.length ≤ k) : line.seen k = line.pending := by
  rw [seen, List.take_of_length_le h, pending]

theorem AtLine.pending_eq (line : AtLine) (k : ℕ) :
    line.pending = line.seen k ++ (line.recvs.drop k).flatMap Chunk.bytes := by
  rw [pending, seen, List.append_assoc, ← List.flatMap_append, List.take_append_drop]

theorem report_spec {whole text rest : List Byte} (h : signalReport whole = some (text, rest)) :
    isigTag <:+: whole ∧ LF ∈ whole := by
  obtain ⟨found, hfound, hpair⟩ := Option.bind_eq_some_iff.mp h
  obtain ⟨hlf, -⟩ := Option.ite_none_right_eq_some.mp hpair
  obtain ⟨hsuffix, hword⟩ := Text.search_spec hfound
  exact ⟨hword.isInfix.trans hsuffix.isInfix, hsuffix.subset (List.mem_of_mem_drop hlf)⟩

/-- The two waits of a call: the first ends after `i` reads, the second `j` reads later. -/
theorem getSignalLevel_open (hopen : line.Open) (htag : InTime 10 tagReadings line.recvs.length)
    (hline : InTime 1 lineReadings line.recvs.length) :
    ∃ i j, 1 ≤ i ∧ 1 ≤ j ∧
      (∀ k, 1 ≤ k → k < i → response isigTag (line.seen k) = none) ∧
      (response isigTag (line.seen i) = none → line.recvs.length ≤ i) ∧
      (∀ k, 1 ≤ k → k < j → response [LF] (line.seen (i + k)) = none) ∧
      (response [LF] (line.seen (i + j)) = none → line.recvs.length ≤ i + j) ∧
      getSignalLevel tagReadings lineReadings line =
        if isigTag <:+: line.seen i then
          if LF ∈ line.seen (i + j) then
            .ok (some (cString (cutLevel (line.seen (i + j))).1))
              { line.heard (i + j) with strCache := (cutLevel (line.seen (i + j))).2 }
          else .ok none (line.heard (i + j))
        else .ok none (line.heard i) := by
  obtain ⟨i, hi, hbefore, hall, hfirst⟩ := waitATResponse_open isigTag hopen htag
  have hlater : (line.heard i).recvs.length = line.recvs.length - i := List.length_drop
  obtain ⟨j, hj, hbefore', hall', hsecond⟩ := waitATResponse_open [LF] (hopen.heard i)
    (hline.mono (hlater.le.trans (Nat.sub_le _ _)))
  rw [hlater] at hall'
  simp only [seen_heard, heard_heard] at hbefore' hall' hsecond
  refine ⟨i, j, hi, hj, hbefore, hall, hbefore', fun hnone ↦ ?_, ?_⟩
  · have := hall' hnone
    omega
  · rw [getSignalLevel, bind_ok hfirst, response_getD]
    by_cases htagged : isigTag <:+: line.seen i
    · simp only [htagged, decide_true, if_true]
      have hline : decide ([LF] <:+: line.seen (i + j)) = decide (LF ∈ line.seen (i + j)) :=
        decide_eq_decide.mpr (List.singleton_infix_iff LF _)
      rw [bind_ok hsecond, response_getD, hline]
      by_cases hlf : LF ∈ line.seen (i + j)
      · simp only [hlf, decide_true, if_true]
        rfl
      · simp only [hlf, decide_false, if_false]
        rfl
    · simp only [htagged, decide_false, if_false]
      rfl

/-- A call hands over the text of the report, up to its first newline. -/
def HandsOver (tagReadings lineReadings : List ℤ) (line : AtLine) (text : List Byte) : Prop :=
  ∃ level, outcome (getSignalLevel tagReadings lineReadings line) = .ok (some level) ∧
    level.takeWhile (· != LF) = text

theorem handsOver_iff (hopen : line.Open) (htag : InTime 10 tagReadings line.recvs.length)
    (hline : InTime 1 lineReadings line.recvs.length) {text rest : List Byte}
    (hreport : signalReport line.pending = some (text, rest)) :
    HandsOver tagReadings lineReadings line text ↔ NUL ∉ text ∧ Exposed line rest := by
  obtain ⟨htagged, hnewline⟩ := report_spec hreport
  obtain ⟨i, j, hi, hj, hbefore, hall, hbefore', hall', hcall⟩ :=
    getSignalLevel_open hopen htag hline
  simp only [response_eq_none, List.singleton_infix_iff] at hbefore hall hbefore' hall'
  -- what the level is worth once both waits have succeeded
  have hlevel : isigTag <:+: line.seen i →
      ((cString (cutLevel (line.seen (i + j))).1).takeWhile (· != LF) = text ↔
        NUL ∉ text ∧ line.pending.length ≤ (line.seen (i + j)).length + rest.length) := by
    intro hfound
    rw [line.pending_eq (i + j)] at hreport
    rw [cutLevel_iff (line.isInfix_seen (Nat.le_add_right i j) hfound) hreport,
      line.pending_eq (i + j), List.length_append, Nat.add_le_add_iff_left]
  constructor
  · rintro ⟨level, hreturned, htext⟩
    rw [hcall] at hreturned
    split_ifs at hreturned with hfound hlf
    · obtain rfl := Option.some.inj (Except.ok.inj hreturned)
      obtain ⟨hnul, hcomplete⟩ := (hlevel hfound).mp htext
      have hfirst : ∀ k, 1 ≤ k → isigTag <:+: line.seen k ∨ errorTag <:+: line.seen k → i ≤ k := by
        intro k hk hshown
        by_contra hlt
        obtain ⟨hnoTag, hnoError⟩ := hbefore k hk (not_le.mp hlt)
        exact hshown.elim hnoTag hnoError
      have hsecond : ∀ k, i ≤ k → LF ∈ line.seen (k + 1) ∨ errorTag <:+: line.seen (k + 1) →
          i + j ≤ k + 1 := by
        intro k hk hshown
        by_contra hlt
        obtain ⟨m, hm⟩ : ∃ m, k + 1 = i + m := Nat.exists_eq_add_of_le (by omega)
        rw [hm] at hshown
        obtain ⟨hnoLine, hnoError⟩ := hbefore' m (by omega) (by omega)
        exact hshown.elim hnoLine hnoError
      refine ⟨hnul, fun k hk herror ↦ ?_, fun k hk htag herror ↦ ?_, fun k hk htag hnl ↦ ?_⟩
      · exact line.isInfix_seen (hfirst k hk (Or.inr herror)) hfound
      · have hle := hsecond k (hfirst k hk (Or.inl htag)) (Or.inr herror)
        exact (line.seen_isPrefix hle).subset hlf
      · have hle := hsecond k (hfirst k hk (Or.inl htag)) (Or.inl hnl)
        exact hcomplete.trans (Nat.add_le_add_right (line.seen_isPrefix hle).length_le _)
    · cases hreturned
    · cases hreturned
  · rintro ⟨hnul, hexposed⟩
    have hfound : isigTag <:+: line.seen i := by
      by_contra hnot
      by_cases herror : errorTag <:+: line.seen i
      · exact hnot (hexposed.tag i hi herror)
      · rw [pending_of_length_le (hall ⟨hnot, herror⟩)] at hnot
        exact hnot htagged
    obtain ⟨m, rfl⟩ := Nat.exists_eq_add_of_le' hj
    have hbehind : isigTag <:+: line.seen (i + m) := line.isInfix_seen (Nat.le_add_right i m) hfound
    have hlf : LF ∈ line.seen (i + (m + 1)) := by
      by_contra hnot
      by_cases herror : errorTag <:+: line.seen (i + (m + 1))
      · exact hnot (hexposed.newline (i + m) (by omega) hbehind herror)
      · rw [pending_of_length_le (hall' ⟨hnot, herror⟩)] at hnot
        exact hnot hnewline
    have hcomplete := hexposed.complete (i + m) (by omega) hbehind hlf
    refine ⟨_, ?_, (hlevel hfound).mpr ⟨hnul, hcomplete⟩⟩
    rw [hcall, if_pos hfound, if_pos hlf]
    rfl

/-- After a call that handed over the report, what follows the report is left. -/
theorem HandsOver.pending (hopen : line.Open) (htag : InTime 10 tagReadings line.recvs.length)
    (hline : InTime 1 lineReadings line.recvs.length) {text rest : List Byte}
    (hreport : signalReport line.pending = some (text, rest))
    (h : HandsOver tagReadings lineReadings line text) :
    (final (getSignalLevel tagReadings lineReadings line)).pending = rest := by
  obtain ⟨i, j, -, -, -, -, -, -, hcall⟩ := getSignalLevel_open hopen htag hline
  obtain ⟨level, hreturned, htext⟩ := h
  rw [hcall] at hreturned ⊢
  split_ifs at hreturned ⊢ with hfound hlf
  · obtain rfl := Option.some.inj (Except.ok.inj hreturned)
    rw [line.pending_eq (i + j)] at hreport
    have htagged := line.isInfix_seen (Nat.le_add_right i j) hfound
    have hcomplete := ((cutLevel_iff htagged hreport).mp htext).2
    exact cutLevel_rest htagged hreport hcomplete
  · cases hreturned
  · cases hreturned

/-! ## Call after call -/

/-- The line after `n` calls; `clocks` are the clock readings of their waits. -/
def AtLine.afterCalls (line : AtLine) (clocks : ℕ → List ℤ × List ℤ) : ℕ → AtLine
  | 0 => line
  | n + 1 => final (getSignalLevel (clocks n).1 (clocks n).2 (line.afterCalls clocks n))

theorem AtLine.afterCalls_open {clocks : ℕ → List ℤ × List ℤ} (hopen : line.Open)
    (htag : ∀ n, InTime 10 (clocks n).1 line.recvs.length)
    (hline : ∀ n, InTime 1 (clocks n).2 line.recvs.length) (n : ℕ) :
    (line.afterCalls clocks n).Open ∧
      (line.afterCalls clocks n).recvs.length ≤ line.recvs.length := by
  induction n with
  | zero => exact ⟨hopen, le_rfl⟩
  | succ n ih =>
      obtain ⟨hn, hle⟩ := ih
      obtain ⟨i, j, -, -, -, -, -, -, hcall⟩ :=
        getSignalLevel_open hn ((htag n).mono hle) ((hline n).mono hle)
      have hless : ∀ k, ((line.afterCalls clocks n).heard k).recvs.length ≤ line.recvs.length :=
        fun k ↦ (List.length_drop.le.trans (Nat.sub_le _ _)).trans hle
      rw [afterCalls, hcall]
      split_ifs
      · exact ⟨⟨hn.connected, (hn.heard (i + j)).delivers⟩, hless (i + j)⟩
      · exact ⟨hn.heard (i + j), hless (i + j)⟩
      · exact ⟨hn.heard i, hless i⟩

/-- Every call hands over the first report of what it finds, and leaves what follows it,
exactly if the reads of every call show what they must and no report contains a NUL. -/
theorem signal_reports_iff (line : AtLine) (clocks : ℕ → List ℤ × List ℤ) (hopen : line.Open)
    (htag : ∀ n, InTime 10 (clocks n).1 line.recvs.length)
    (hline : ∀ n, InTime 1 (clocks n).2 line.recvs.length) :
    (∀ n text rest, signalReport (line.afterCalls clocks n).pending = some (text, rest) →
        HandsOver (clocks n).1 (clocks n).2 (line.afterCalls clocks n) text ∧
          (line.afterCalls clocks (n + 1)).pending = rest) ↔
      ∀ n text rest, signalReport (line.afterCalls clocks n).pending = some (text, rest) →
        NUL ∉ text ∧ Exposed (line.afterCalls clocks n) rest := by
  have hcalls : ∀ n, (line.afterCalls clocks n).Open ∧
      InTime 10 (clocks n).1 (line.afterCalls clocks n).recvs.length ∧
      InTime 1 (clocks n).2 (line.afterCalls clocks n).recvs.length := by
    intro n
    obtain ⟨hn, hle⟩ := line.afterCalls_open hopen htag hline n
    exact ⟨hn, (htag n).mono hle, (hline n).mono hle⟩
  constructor
  · intro h n text rest hreport
    obtain ⟨hn, htagTime, hlineTime⟩ := hcalls n
    exact (handsOver_iff hn htagTime hlineTime hreport).mp (h n text rest hreport).1
  · intro h n text rest hreport
    obtain ⟨hn, htagTime, hlineTime⟩ := hcalls n
    have hhands := (handsOver_iff hn htagTime hlineTime hreport).mpr (h n text rest hreport)
    exact ⟨hhands, hhands.pending hn htagTime hlineTime hreport⟩

/-- `_ISIG:45` and a newline, in one piece. -/
def oneReport : AtLine :=
  { freshLine with recvs := [.data ⟨isigTag ++ ascii ['4', '5', '\n'], by decide, by decide⟩] }

theorem signal_reports_one :
    oneReport.Open ∧ InTime 10 [] oneReport.recvs.length ∧ InTime 1 [] oneReport.recvs.length ∧
      ∀ n text rest, signalReport (oneReport.afterCalls (fun _ ↦ ([], [])) n).pending =
          some (text, rest) →
        HandsOver [] [] (oneReport.afterCalls (fun _ ↦ ([], [])) n) text ∧
          (oneReport.afterCalls (fun _ ↦ ([], [])) (n + 1)).pending = rest := by
  have hopen : oneReport.Open := ⟨rfl, by decide⟩
  have htag : InTime 10 [] oneReport.recvs.length := ⟨by decide, by decide⟩
  have hline : InTime 1 [] oneReport.recvs.length := ⟨by decide, by decide⟩
  refine ⟨hopen, htag, hline, ?_⟩
  refine (signal_reports_iff oneReport (fun _ ↦ ([], [])) hopen (fun _ ↦ htag)
    fun _ ↦ hline).mpr fun n text rest hreport ↦ ?_
  -- after the first call there is only the newline left
  have hlater : ∀ n, oneReport.afterCalls (fun _ ↦ ([], [])) (n + 1) =
      { freshLine with strCache := [LF] } := by
    intro n
    induction n with
    | zero => rfl
    | succ n ih =>
        rw [afterCalls, ih]
        rfl
  cases n with
  | zero =>
      have hfirst : signalReport oneReport.pending = some (ascii ['4', '5'], [LF]) := by decide
      obtain ⟨rfl, rfl⟩ := Prod.mk.inj (Option.some.inj (hfirst.symm.trans hreport))
      have hall : ∀ k, 1 ≤ k → oneReport.seen k = oneReport.pending := fun k hk ↦
        pending_of_length_le hk
      refine ⟨by decide, fun k hk _ ↦ ?_, fun k _ _ _ ↦ ?_, fun k _ _ _ ↦ ?_⟩
      · have htagged : isigTag <:+: oneReport.pending := by decide
        exact hall k hk ▸ htagged
      · have hnewline : LF ∈ oneReport.pending := by decide
        exact hall (k + 1) (Nat.le_add_left 1 k) ▸ hnewline
      · have hwhole := hall (k + 1) (Nat.le_add_left 1 k)
        exact (congrArg List.length hwhole).ge.trans (Nat.le_add_right _ _)
  | succ n =>
      have hnone : signalReport (AtLine.pending { freshLine with strCache := [LF] }) = none := by
        decide
      rw [hlater n, hnone] at hreport
      cases hreport

/-- A report of `45.2` that begins, like every answer, with a newline of its own. -/
def cutReport : AtLine :=
  { freshLine with recvs :=
      [.data ⟨ascii ['\r', '\n'] ++ isigTag ++ ascii [' '], by decide, by decide⟩,
        .data ⟨ascii ['4'], by decide, by decide⟩,
        .data ⟨ascii ['5', '.', '2', '\r', '\n'], by decide, by decide⟩] }

/-- The level read from it is 4, and the rest of the report is left over. -/
theorem signal_report_cut_short :
    cutReport.Open ∧ InTime 10 [0, 0] cutReport.recvs.length ∧
      InTime 1 [0, 0] cutReport.recvs.length ∧
      signalReport cutReport.pending = some (ascii [' ', '4', '5', '.', '2', '\r'], [LF]) ∧
      outcome (getSignalLevel [0, 0] [0, 0] cutReport) = .ok (some (ascii [' ', '4'])) ∧
      (final (getSignalLevel [0, 0] [0, 0] cutReport)).pending =
        ascii ['5', '.', '2', '\r', '\n'] :=
  ⟨⟨rfl, by decide⟩, ⟨by decide, by decide⟩, ⟨by decide, by decide⟩, by decide, rfl, rfl⟩

end DeviceAgent
