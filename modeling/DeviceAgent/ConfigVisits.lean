import DeviceAgent.ConfigPage
import DeviceAgent.FieldIsolation
import DeviceAgent.FormBuffers
import DeviceAgent.Foundations.Transition

/-!
# Visits to the configuration page

`main` of the form program: a request is read, its values saved or taken as the wish to
reboot, and answered by the page.  Between two requests there is nothing but the file, so
what matters is how the file behaves over many of them.  The requests are those that have
every key once, in any order, and the field of a button behind them.
-/

namespace DeviceAgent

/-! ## Handling a request -/

structure FormRequest where
  /-- `CONTENT_LENGTH`, if it is set. -/
  lenstr : Option (List Byte)
  stdin : List Byte
  deriving DecidableEq

/-- The builds of the form program. -/
inductive Build
  | arm
  | debug

/-- The width of a `long`. -/
def Build.longBits : Build → ℕ
  | .arm => 32
  | .debug => 64

/-- What the system does during a request: the time as `ctime` gives it, whether the file
can be opened for writing, the blanks in front of the array in `GetValue`, and what the
library makes of numbers that are no `int` and no `long`. -/
structure Surroundings where
  build : Build
  now : List Byte
  writable : Bool
  below : ℕ
  large : ℤ → BitVec 32
  far : ℤ → ℤ

/-- The settings as the program finds them in a file. -/
def Surroundings.config (sys : Surroundings) (file : Option (List Byte)) : Config :=
  ⟨file, sys.below, sys.large⟩

/-- The number, if it is a `long`. -/
def Surroundings.asLong (sys : Surroundings) (x : ℤ) : ℤ :=
  if -(2 ^ (sys.build.longBits - 1)) ≤ x ∧ x < 2 ^ (sys.build.longBits - 1) then x else sys.far x

/-- `sscanf` with `%ld`. -/
def scanLong (sys : Surroundings) (text : List Byte) : Option ℤ :=
  let number := sys.asLong (leadingInt text)
  match text.dropWhile isSpace with
  | [] => none
  | b :: rest =>
      if b = MINUS ∨ b = PLUS then if rest.head?.any isDigit then some number else none
      else if isDigit b then some number else none

def lengthError (lenstr : List Byte) : List Byte :=
  ascii "Content length error:".toList ++ lenstr

/-- The message and the text in `buf`; nothing if `fgets` leaves the array. -/
def readRequest (sys : Surroundings) (r : FormRequest) : Option (List Byte × List Byte) :=
  match r.lenstr with
  | none => some ([], [])
  | some lenstr =>
      match scanLong sys lenstr with
      | none => some (lengthError lenstr, [])
      | some len =>
          if 1024 < len then some (lengthError lenstr, [])
          else if (readBody len r.stdin).length < 1024 then
            some ([], cString (readBody len r.stdin))
          else none

structure Handled where
  file : Option (List Byte)
  strMsg : List Byte
  reboot : Bool

def submitWord : List Byte := ascii "Submit".toList
def rebootWord : List Byte := ascii "reboot".toList

/-- What is done with the text in `buf`.  The value of the button is looked up and not
used. -/
def handle (sys : Surroundings) (file : Option (List Byte)) (strMsg buf : List Byte) :
    Option Handled :=
  if buf = [] then some ⟨file, strMsg, false⟩
  else
    (getKey submitWord buf).bind fun _ ↦
      if (Text.search rebootWord buf).isSome then
        some ⟨file, ascii "System will reboot in 5 seconds.".toList, true⟩
      else if sys.writable then
        (saveConfig buf).map fun contents ↦
          ⟨some contents, ascii "Parameters saved at I/F UNIT local time:".toList ++ sys.now ++
            ascii ". Please press reboot button to make them effect ".toList, false⟩
      else some ⟨file, ascii "open file error".toList, false⟩

structure FormReply where
  page : List Byte
  reboot : Bool

/-- `main`: the reply, and the file as it is left. -/
def Form.main (sys : Surroundings) (r : FormRequest) (file : Option (List Byte)) :
    Option (FormReply × Option (List Byte)) :=
  (readRequest sys r).bind fun (strMsg, buf) ↦
    (handle sys file strMsg buf).map fun h ↦
      (⟨printPage h.strMsg (sys.config h.file), h.reboot⟩, h.file)

theorem Surroundings.asLong_of_small (sys : Surroundings) {x : ℤ} (hx : 0 ≤ x ∧ x < 1024) :
    sys.asLong x = x := by
  have hbits : (1024 : ℤ) ≤ 2 ^ (sys.build.longBits - 1) := by
    cases sys.build <;> decide
  exact if_pos ⟨by omega, by omega⟩

theorem scanLong_decimal (sys : Surroundings) {n : ℕ} (hn : n < 1024) :
    scanLong sys (decimal n) = some (n : ℤ) := by
  have hvalue := leadingInt_decimal (n := n) (Int.natCast_nonneg n)
  have hlong := sys.asLong_of_small (x := n) (by omega)
  obtain ⟨b, rest, hcons, hb⟩ := decimal_cons n
  obtain ⟨hspace, hminus, hplus⟩ := isDigit_plain b hb
  rw [hcons] at hvalue ⊢
  rw [scanLong, List.dropWhile_cons_of_neg (by rw [hspace]; decide)]
  simp only [if_neg (not_or.mpr ⟨hminus, hplus⟩), if_pos hb, hvalue, hlong]

/-! ## Forms that are sent -/

/-- A form with every field once, in any order, and a button. -/
structure FilledForm where
  keys : List FormKey
  once : keys.Perm FormKey.all
  values : FormKey → List Byte
  button : List Byte

namespace FilledForm

def fields (form : FilledForm) : List (FormKey × List Byte) :=
  form.keys.map fun k ↦ (k, form.values k)

/-- The body of its request. -/
def body (form : FilledForm) : List Byte :=
  DeviceAgent.body form.fields ++ AMP :: (submitWord ++ EQUALS :: encode form.button)

theorem mem_keys (form : FilledForm) (k : FormKey) : k ∈ form.keys :=
  form.once.mem_iff.mpr k.mem_all

theorem exists_field (form : FilledForm) {p : FormKey × List Byte → Prop} :
    (∃ f ∈ form.fields, p f) ↔ ∃ k, p (k, form.values k) := by
  simp [fields, form.mem_keys]

end FilledForm

inductive Visit
  | view
  | submit (form : FilledForm)

def Visit.request : Visit → FormRequest
  | .view => ⟨none, []⟩
  | .submit form => ⟨some (decimal form.body.length), form.body⟩

/-- Letters that stand only for themselves in an encoded text. -/
def isSpelled (b : Byte) : Bool :=
  unreserved b && !isDigit b && !(0x41 ≤ b.toNat && b.toNat ≤ 0x46)

theorem isSpelled_ne : ∀ b : Byte, isSpelled b = true → unreserved b = true ∧ b ≠ PLUS ∧
    b ≠ PERCENT := by
  decide

theorem hexDigit_notSpelled : ∀ b : Byte, isSpelled (hexDigit (b.toNat / 16)) = false ∧
    isSpelled (hexDigit (b.toNat % 16)) = false := by
  decide

section Spelled

variable {word : List Byte}

theorem not_isPrefix_cons {c : Byte} (hne : word ≠ []) (hword : ∀ b ∈ word, isSpelled b = true)
    (hc : isSpelled c = false) (rest : List Byte) : ¬ word <+: c :: rest := by
  obtain ⟨b, word, rfl⟩ := List.exists_cons_of_ne_nil hne
  intro hprefix
  rw [← (List.cons_prefix_cons.mp hprefix).1, hword b List.mem_cons_self] at hc
  cases hc

theorem isPrefix_of_encode (hword : ∀ b ∈ word, isSpelled b = true) {v : List Byte}
    (h : word <+: encode v) : word <+: v := by
  induction v generalizing word with
  | nil => exact h
  | cons b v ih =>
      rcases eq_or_ne word [] with rfl | hne
      · exact List.nil_prefix
      · rw [encode_cons, encodeByte] at h
        split_ifs at h
        · obtain ⟨c, word, rfl⟩ := List.exists_cons_of_ne_nil hne
          obtain ⟨rfl, hrest⟩ := List.cons_prefix_cons.mp h
          exact List.cons_prefix_cons.mpr
            ⟨rfl, ih (fun b hb ↦ hword b (List.mem_cons_of_mem _ hb)) hrest⟩
        · exact absurd h (not_isPrefix_cons hne hword (by decide) _)
        · exact absurd h (not_isPrefix_cons hne hword (by decide) _)

theorem encode_of_unreserved {v : List Byte} (h : ∀ b ∈ v, unreserved b = true) :
    encode v = v := by
  induction v with
  | nil => rfl
  | cons b v ih =>
      rw [encode_cons, ih fun c hc ↦ h c (List.mem_cons_of_mem b hc), encodeByte,
        if_pos (h b List.mem_cons_self), List.singleton_append]

/-- A word of such letters is in an encoded text exactly if it is in the text. -/
theorem isInfix_encode_iff (hne : word ≠ []) (hword : ∀ b ∈ word, isSpelled b = true)
    (v : List Byte) : word <:+: encode v ↔ word <:+: v := by
  constructor
  · intro h
    induction v with
    | nil => exact h
    | cons b v ih =>
        obtain ⟨hhigh, hlow⟩ := hexDigit_notSpelled b
        rw [encode_cons, encodeByte] at h
        split_ifs at h with hb
        · rcases List.infix_cons_iff.mp h with hprefix | hrest
          · refine (isPrefix_of_encode hword ?_).isInfix
            rwa [encode_cons, encodeByte, if_pos hb]
          · exact List.infix_cons (ih hrest)
        · refine List.infix_cons (ih ?_)
          exact (List.infix_cons_iff.mp h).resolve_left (not_isPrefix_cons hne hword (by decide) _)
        · refine List.infix_cons (ih ?_)
          have h₁ := (List.infix_cons_iff.mp h).resolve_left
            (not_isPrefix_cons hne hword (by decide) _)
          have h₂ := (List.infix_cons_iff.mp h₁).resolve_left
            (not_isPrefix_cons hne hword hhigh _)
          exact (List.infix_cons_iff.mp h₂).resolve_left (not_isPrefix_cons hne hword hlow _)
  · rintro ⟨before, after, rfl⟩
    have hself : encode word = word :=
      encode_of_unreserved fun b hb ↦ (isSpelled_ne b (hword b hb)).1
    exact ⟨encode before, encode after, by rw [encode_append, encode_append, hself]⟩

end Spelled

/-- A word that reaches over no separator is in a key or in a value. -/
theorem isInfix_body_iff {word : List Byte} (hne : word ≠ []) (hamp : AMP ∉ word)
    (hequals : EQUALS ∉ word) (fields : List (FormKey × List Byte)) :
    word <:+: body fields ↔ ∃ f ∈ fields, word <:+: f.1.szKey ∨ word <:+: encode f.2 := by
  have hfield : ∀ f, word <:+: field f ↔ word <:+: f.1.szKey ∨ word <:+: encode f.2 := fun f ↦
    Text.isInfix_append_sep hne hequals
  induction fields with
  | nil => simp [body, hne]
  | cons f rest ih =>
      cases rest with
      | nil => simp [body, hfield]
      | cons g rest => simp [body, Text.isInfix_append_sep hne hamp, ih, hfield]

/-- Bytes that never stand in a form: they are encoded, and no separators. -/
structure IsForeign (c : Byte) : Prop where
  unreserved : unreserved c = false
  plus : c ≠ PLUS
  percent : c ≠ PERCENT
  amp : c ≠ AMP
  equals : c ≠ EQUALS

theorem IsForeign.notMem_body {c : Byte} (h : IsForeign c) (fields : List (FormKey × List Byte)) :
    c ∉ body fields := by
  have hname : isNameByte c = false := by
    by_contra hletter
    have hfree := unreserved_of_isNameByte c (by simpa using hletter)
    rw [h.unreserved] at hfree
    cases hfree
  have hfield : ∀ f, c ∉ field f := by
    intro f
    rw [field, List.mem_append, List.mem_cons, not_or, not_or]
    exact ⟨f.1.isName_szKey.notMem hname, h.equals,
      notMem_encode h.unreserved h.plus h.percent f.2⟩
  induction fields with
  | nil => exact List.not_mem_nil
  | cons f rest ih =>
      cases rest with
      | nil => exact hfield f
      | cons g rest =>
          rw [body, List.mem_append, List.mem_cons, not_or, not_or]
          exact ⟨hfield f, h.amp, ih⟩

namespace FilledForm

variable (form : FilledForm)

theorem notMem_body {c : Byte} (h : IsForeign c) (hword : c ∉ submitWord) : c ∉ form.body := by
  rw [body, List.mem_append, List.mem_cons, List.mem_append, List.mem_cons]
  push Not
  exact ⟨h.notMem_body _, h.amp, hword, h.equals,
    notMem_encode h.unreserved h.plus h.percent form.button⟩

theorem body_ne_nil : form.body ≠ [] := by
  simp [body]

end FilledForm

theorem fgetsSize_of_small {n : ℕ} (hn : n < 1024) : fgetsSize n = n + 1 := by
  exact Periods.wrap_eq_self (w := 31) (by omega) (by omega)

/-- A short form is read whole. -/
theorem readRequest_submit (sys : Surroundings) {form : FilledForm}
    (hshort : form.body.length < 1024) :
    readRequest sys (Visit.submit form).request = some ([], form.body) := by
  have hlf : LF ∉ form.body :=
    form.notMem_body ⟨by decide, by decide, by decide, by decide, by decide⟩ (by decide)
  have hnul : NUL ∉ form.body :=
    form.notMem_body ⟨by decide, by decide, by decide, by decide, by decide⟩ (by decide)
  have hroom : (fgetsSize form.body.length).toNat - 1 = form.body.length := by
    rw [fgetsSize_of_small hshort]
    omega
  have hread : readBody form.body.length form.body = form.body := by
    rw [readBody, hroom, fgets_of_notMem _ hlf, List.take_length]
  have hlen : ¬ (1024 : ℤ) < form.body.length := by omega
  simp only [readRequest, Visit.request, scanLong_decimal sys hshort, if_neg hlen, hread,
    if_pos hshort, cString_of_notMem hnul]

theorem main_submit (sys : Surroundings) (file : Option (List Byte)) {form : FilledForm}
    (hshort : form.body.length < 1024) :
    Form.main sys (Visit.submit form).request file =
      (handle sys file [] form.body).map fun h ↦
        (⟨printPage h.strMsg (sys.config h.file), h.reboot⟩, h.file) := by
  rw [Form.main, readRequest_submit sys hshort]
  rfl

theorem word_spelled : (∀ b ∈ submitWord, isSpelled b = true) ∧
    ∀ b ∈ rebootWord, isSpelled b = true := by
  decide

theorem not_isInfix_key (k : FormKey) :
    ¬ submitWord <:+: k.szKey ∧ ¬ rebootWord <:+: k.szKey := by
  constructor <;> refine Text.search_eq_none_iff.mp ?_ <;> cases k <;> decide

theorem submitWord_isInfix_fields (form : FilledForm) :
    submitWord <:+: body form.fields ↔ ∃ k, submitWord <:+: form.values k := by
  rw [isInfix_body_iff (by decide) (by decide) (by decide), form.exists_field]
  simp [(not_isInfix_key _).1, isInfix_encode_iff (by decide) word_spelled.1]

theorem rebootWord_isInfix_body (form : FilledForm) : rebootWord <:+: form.body ↔
    (∃ k, rebootWord <:+: form.values k) ∨ rebootWord <:+: form.button := by
  rw [FilledForm.body, Text.isInfix_append_sep (by decide) (by decide),
    Text.isInfix_append_sep (by decide) (by decide),
    isInfix_body_iff (by decide) (by decide) (by decide),
    isInfix_encode_iff (by decide) word_spelled.2, form.exists_field]
  have hnot : ¬ rebootWord <:+: submitWord := Text.search_eq_none_iff.mp (by decide)
  simp [(not_isInfix_key _).2, hnot, isInfix_encode_iff (by decide) word_spelled.2]

/-- Everything that can be done with a text in `buf`. -/
theorem handle_cases {sys : Surroundings} {file : Option (List Byte)} {strMsg buf : List Byte}
    {h : Handled} (hbuf : buf ≠ []) (hhandle : handle sys file strMsg buf = some h) :
    (rebootWord <:+: buf ∧ h.reboot = true ∧ h.file = file) ∨
      ¬ rebootWord <:+: buf ∧ h.reboot = false ∧
        (h.file = file ∧ sys.writable = false ∨ sys.writable = true ∧ h.file = saveConfig buf) := by
  rw [handle, if_neg hbuf] at hhandle
  obtain ⟨-, -, hhandle⟩ := Option.bind_eq_some_iff.mp hhandle
  have hiff : (Text.search rebootWord buf).isSome = true ↔ rebootWord <:+: buf :=
    Text.search_isSome_iff
  split_ifs at hhandle with hword hwritable
  · obtain rfl := Option.some.inj hhandle
    exact Or.inl ⟨hiff.mp hword, rfl, rfl⟩
  · obtain ⟨contents, hsave, rfl⟩ := Option.map_eq_some_iff.mp hhandle
    exact Or.inr ⟨mt hiff.mpr hword, rfl, Or.inr ⟨hwritable, hsave.symm⟩⟩
  · obtain rfl := Option.some.inj hhandle
    exact Or.inr ⟨mt hiff.mpr hword, rfl, Or.inl ⟨rfl, eq_false_of_ne_true hwritable⟩⟩

/-- If the program comes to its end for a form of less than 1024 bytes, the station reboots
exactly if the word is in a value or on the button, in whatever place; and then nothing is
saved. -/
theorem reboots_iff (sys : Surroundings) (file : Option (List Byte)) (form : FilledForm)
    (reply : FormReply) (file' : Option (List Byte)) (hshort : form.body.length < 1024)
    (hmain : Form.main sys (Visit.submit form).request file = some (reply, file')) :
    (reply.reboot = true ↔
      (∃ k, rebootWord <:+: form.values k) ∨ rebootWord <:+: form.button) ∧
      (reply.reboot = true → file' = file) := by
  rw [main_submit sys file hshort] at hmain
  obtain ⟨h, hhandle, heq⟩ := Option.map_eq_some_iff.mp hmain
  obtain ⟨rfl, rfl⟩ := Prod.mk.inj heq
  rw [← rebootWord_isInfix_body]
  rcases handle_cases form.body_ne_nil hhandle with ⟨hword, hreboot, hfile⟩ | ⟨hword, hreboot, -⟩
  · exact ⟨iff_of_true hreboot hword, fun _ ↦ hfile⟩
  · have hno : ¬ h.reboot = true := by rw [hreboot]; decide
    exact ⟨iff_of_false hno hword, fun hyes ↦ absurd hyes hno⟩

/-- A writable file, and no numbers out of range. -/
def plainSystem : Surroundings := ⟨.arm, [], true, 0, fun _ ↦ 0#32, id⟩

def saveButton : List Byte := ascii "Save".toList

/-- Everything is left empty but the password, which has the word in it. -/
def rebootPassword : FilledForm where
  keys := FormKey.all
  once := List.Perm.refl _
  values := Function.update (fun _ ↦ []) .password (ascii "reboot1".toList)
  button := saveButton

theorem reboots_iff_password :
    ∃ reply file',
      Form.main plainSystem (Visit.submit rebootPassword).request none = some (reply, file') ∧
      reply.reboot = true ∧
      (reply.reboot = true ↔ (∃ k, rebootWord <:+: rebootPassword.values k) ∨
        rebootWord <:+: rebootPassword.button) ∧
      (reply.reboot = true → file' = none) := by
  have hany : (Form.main plainSystem
      (Visit.submit rebootPassword).request none).any (·.1.reboot) = true := by
    decide +kernel
  obtain ⟨⟨reply, file'⟩, hmain, hreboot⟩ := (Option.any_eq_true _ _).mp hany
  exact ⟨reply, file', hmain, hreboot, reboots_iff plainSystem none rebootPassword reply file'
    (by decide +kernel) hmain⟩

/-! ## Forms that are saved -/

/-- A form that the program can take: the values are single lines without the words the
program looks for, and there is room for all of them. -/
structure Fit (form : FilledForm) : Prop where
  lines : ∀ k, LF ∉ form.values k ∧ NUL ∉ form.values k
  names : ∀ i j : FormKey, ¬ i.szKey <:+: encode (form.values j)
  words : ∀ k, ¬ submitWord <:+: form.values k ∧ ¬ rebootWord <:+: form.values k
  short : form.body.length < 1024

/-- The getters on a file that was written for these values.  That of the signal level reads
a key that is not written, and so does that of the idle time. -/
structure Holds (file : Option (List Byte)) (values : FormKey → List Byte) : Prop where
  written : ∀ below large, ∀ k : FormKey, k ≠ .minSingal →
    (Config.mk file below large).get k.setting = k.setting.value large (some (values k))
  unwritten : ∀ below large, ∀ s ∈ unwritten, (Config.mk file below large).get s = s.default

section Fit

variable {form : FilledForm}

/-- The button behind the fields is no matter to the keys. -/
theorem getKey_formBody (k : FormKey) :
    getKey k.szKey form.body = getKey k.szKey (body form.fields) := by
  have hname := k.isName_szKey
  have hmem : k.szKey <:+: body form.fields := by
    rw [isInfix_body_iff hname.ne_nil hname.amp_notMem hname.equals_notMem, form.exists_field]
    exact ⟨k, Or.inl (List.infix_refl _)⟩
  obtain ⟨found, hfound⟩ := Option.isSome_iff_exists.mp (Text.search_isSome_iff.mpr hmem)
  have hlength := (Text.search_spec hfound).2.length_le
  have htake : ∀ x y : List Byte, (x ++ AMP :: y).takeWhile (· != AMP) =
      x.takeWhile (· != AMP) := by
    intro x y
    rw [List.takeWhile_append]
    split_ifs with hwhole
    · rw [List.takeWhile_cons_of_neg (by simp), List.append_nil]
      exact ((List.takeWhile_prefix _).eq_of_length hwhole).symm
    · rfl
  rw [getKey, getKey, FilledForm.body, hfound, Text.search_append hfound]
  dsimp only
  rw [List.drop_append_of_le_length hlength, htake]

theorem saveConfig_formBody : saveConfig form.body = saveConfig (body form.fields) := by
  have hprint : printConfig form.body = printConfig (body form.fields) := by
    funext k
    rw [printConfig, printConfig, getKey_formBody]
  rw [saveConfig, saveConfig, hprint]

theorem length_le_formBody (form : FilledForm) (k : FormKey) :
    k.szKey.length + (form.values k).length + 15 ≤ form.body.length := by
  have hmem : (k, form.values k) ∈ form.fields := List.mem_map.mpr ⟨k, form.mem_keys k, rfl⟩
  have hfield := length_field_le hmem
  have hencode := length_urldecode_le (urldecode_encode (form.values k))
  have hkeys : form.fields.length = 15 := by
    rw [FilledForm.fields, List.length_map, form.once.length_eq]
    rfl
  rw [hkeys] at hfield
  simp only [field, FilledForm.body, List.length_append, List.length_cons] at hfield ⊢
  omega

variable (hfit : Fit form)

include hfit

theorem Fit.plain (k : FormKey) : Plain k (form.values k) := by
  have hlength := length_le_formBody form k
  have hshort := hfit.short
  exact ⟨(hfit.lines k).1, (hfit.lines k).2, by omega⟩

theorem Fit.decoded (k : FormKey) : decoded k form.fields = some (form.values k) := by
  have hroom := (hfit.plain k).room
  rw [FilledForm.fields, decoded_of_behind (behind_map (form.mem_keys k) (hfit.names k)),
    if_pos (by omega)]

theorem Fit.saveConfig :
    ∃ contents, saveConfig form.body = some contents ∧ Holds (some contents) form.values := by
  have hall : Complete form.fields := by
    intro k
    simp [FilledForm.fields, form.mem_keys]
  refine ⟨_, saveConfig_formBody.trans (saveConfig_eq_some hall hfit.decoded), ?_, ?_⟩
  · intro below large k hk
    rw [Config.get_eq, Config.found_file, readLines_saved, FormKey.setting_key hk,
      foundIn_plain below hfit.plain k]
  · intro below large s hs
    rw [Config.get_eq, Config.found_file, readLines_saved,
      foundIn_plain_eq_none below hfit.plain s.isName_key (unwritten_key_ne hs)]
    rfl

/-- The decoder comes to its end for the button. -/
theorem Fit.getKey_submit : (getKey submitWord form.body).isSome = true := by
  have hbody : Text.search submitWord (body form.fields) = none :=
    Text.search_eq_none_iff.mpr fun h ↦ by
      obtain ⟨k, hk⟩ := (submitWord_isInfix_fields form).mp h
      exact (hfit.words k).1 hk
  have hsearch : Text.search submitWord form.body =
      some (submitWord ++ EQUALS :: encode form.button) := by
    rw [FilledForm.body, Text.search_append_sep (by decide) (by decide), hbody, Option.map_none,
      Option.none_or]
    exact Text.search_of_isPrefix (List.prefix_append _ _)
  have hencode := length_urldecode_le (urldecode_encode form.button)
  have hshort := hfit.short
  have hroom : form.button.length ≤ 1022 := by
    simp only [FilledForm.body, List.length_append, List.length_cons] at hshort
    omega
  have htake : (EQUALS :: encode form.button).takeWhile (· != AMP) =
      EQUALS :: encode form.button := by
    refine takeWhile_bne_self ?_
    rw [List.mem_cons, not_or]
    exact ⟨by decide, amp_notMem_encode form.button⟩
  rw [getKey, hsearch]
  dsimp only
  rw [List.drop_left, htake]
  simp [urldecode_encode, hroom]

/-- A form that fits is always handled. -/
theorem Fit.handle (sys : Surroundings) (file : Option (List Byte)) :
    ∃ h, handle sys file [] form.body = some h := by
  obtain ⟨label, hlabel⟩ := Option.isSome_iff_exists.mp hfit.getKey_submit
  obtain ⟨contents, hcontents, -⟩ := hfit.saveConfig
  rw [DeviceAgent.handle, if_neg form.body_ne_nil, hlabel, Option.bind_some, hcontents]
  split_ifs
  · exact ⟨_, rfl⟩
  · exact ⟨_, rfl⟩
  · exact ⟨_, rfl⟩

end Fit

/-- The form as the page of a station without a configuration file has it. -/
def defaultForm (button : List Byte) : FilledForm where
  keys := FormKey.all
  once := List.Perm.refl _
  values := Config.noFile.shown
  button := button

theorem fit_defaultForm {button : List Byte} (hshort : (defaultForm button).body.length < 1024) :
    Fit (defaultForm button) where
  lines := by
    have hall : ∀ k ∈ FormKey.all, LF ∉ Config.noFile.shown k ∧ NUL ∉ Config.noFile.shown k := by
      decide
    exact fun k ↦ hall k k.mem_all
  names := by
    have hall : ∀ i ∈ FormKey.all, ∀ j ∈ FormKey.all,
        Text.search i.szKey (encode (Config.noFile.shown j)) = none := by
      decide
    exact fun i j ↦ Text.search_eq_none_iff.mp (hall i i.mem_all j j.mem_all)
  words := by
    have hall : ∀ k ∈ FormKey.all, Text.search submitWord (Config.noFile.shown k) = none ∧
        Text.search rebootWord (Config.noFile.shown k) = none := by
      decide
    exact fun k ↦ (hall k k.mem_all).imp Text.search_eq_none_iff.mp Text.search_eq_none_iff.mp
  short := hshort

theorem fit_save : Fit (defaultForm saveButton) := fit_defaultForm (by decide +kernel)

/-! ## Visits one after the other -/

namespace Visit

def Proper : Visit → Prop
  | .view => True
  | .submit form => Fit form

/-- The values that a visit is meant to save. -/
def saves (sys : Surroundings) : Visit → Option (FormKey → List Byte)
  | .view => none
  | .submit form =>
      if rebootWord <:+: form.button ∨ sys.writable = false then none else form.values

/-- Only the file is there between two visits. -/
def step (file : Option (List Byte)) (call : Surroundings × Visit) : Option (Option (List Byte)) :=
  (Form.main call.1 call.2.request file).map Prod.snd

/-- The values of the last save. -/
def lastSaved : List (Surroundings × Visit) → Option (FormKey → List Byte)
  | [] => none
  | call :: rest => (lastSaved rest).or (call.2.saves call.1)

theorem step_holds (visit : Visit) (hvisit : visit.Proper) (sys : Surroundings)
    (file : Option (List Byte)) :
    ∃ file', step file (sys, visit) = some file' ∧ (visit.saves sys = none → file' = file) ∧
      ∀ values, visit.saves sys = some values → Holds file' values := by
  cases visit with
  | view => exact ⟨file, rfl, fun _ ↦ rfl, fun _ h ↦ by cases h⟩
  | submit form =>
      have hfit : Fit form := hvisit
      obtain ⟨h, hhandle⟩ := hfit.handle sys file
      have hword : rebootWord <:+: form.body ↔ rebootWord <:+: form.button := by
        rw [rebootWord_isInfix_body]
        refine or_iff_right ?_
        rintro ⟨k, hk⟩
        exact (hfit.words k).2 hk
      refine ⟨h.file, by rw [step, main_submit sys file hfit.short, hhandle]; rfl, ?_⟩
      rcases handle_cases form.body_ne_nil hhandle with
        ⟨hreboot, -, hfile⟩ | ⟨hreboot, -, ⟨hfile, hsys⟩ | ⟨hsys, hfile⟩⟩
      · have hnone : saves sys (.submit form) = none := if_pos (Or.inl (hword.mp hreboot))
        rw [hnone]
        exact ⟨fun _ ↦ hfile, fun _ h ↦ by cases h⟩
      · have hnone : saves sys (.submit form) = none := if_pos (Or.inr hsys)
        rw [hnone]
        exact ⟨fun _ ↦ hfile, fun _ h ↦ by cases h⟩
      · have hsome : saves sys (.submit form) = some form.values :=
          if_neg (not_or.mpr ⟨mt hword.mpr hreboot, by rw [hsys]; decide⟩)
        obtain ⟨contents, hcontents, hholds⟩ := hfit.saveConfig
        rw [hsome, hfile, hcontents]
        refine ⟨fun h ↦ (by cases h), fun _ h ↦ ?_⟩
        obtain rfl := Option.some.inj h
        exact hholds

/-- Over any number of visits with forms that fit the program serves every one of them.  Until
one is saved the file stays as it is; then the getters return what was filled in last, but for
those of the signal level and of the idle time, which return their defaults.  A reboot, a file
that cannot be written and a look at the page change nothing. -/
theorem visits_keep_last_save (file : Option (List Byte)) (calls : List (Surroundings × Visit))
    (hcalls : ∀ call ∈ calls, call.2.Proper) :
    ∃ file', Transition.run step calls file = some file' ∧
      (lastSaved calls = none → file' = file) ∧
      ∀ values, lastSaved calls = some values → ∀ below large,
        (∀ k : FormKey, k ≠ .minSingal → (Config.mk file' below large).get k.setting =
          k.setting.value large (some (values k))) ∧
        ∀ s ∈ [Setting.idelSecond, .minSignalLevel],
          (Config.mk file' below large).get s = s.default := by
  have hruns : ∃ file', Transition.run step calls file = some file' ∧
      (lastSaved calls = none → file' = file) ∧
      ∀ values, lastSaved calls = some values → Holds file' values := by
    induction calls generalizing file with
    | nil => exact ⟨file, rfl, fun _ ↦ rfl, fun _ h ↦ by cases h⟩
    | cons call rest ih =>
        obtain ⟨file₁, hstep, hsame, hsaved⟩ :=
          step_holds call.2 (hcalls call List.mem_cons_self) call.1 file
        obtain ⟨file', hrun, hkept, hholds⟩ :=
          ih file₁ fun c hc ↦ hcalls c (List.mem_cons_of_mem call hc)
        refine ⟨file', by rw [Transition.run, hstep]; exact hrun, ?_⟩
        rw [lastSaved]
        cases hlast : lastSaved rest with
        | some values =>
            refine ⟨fun h ↦ (by cases h), fun values' h ↦ hholds values' ?_⟩
            rw [hlast]
            exact h
        | none =>
            obtain rfl := hkept hlast
            exact ⟨hsame, hsaved⟩
  obtain ⟨file', hrun, hkept, hholds⟩ := hruns
  exact ⟨file', hrun, hkept, fun values h below large ↦
    ⟨(hholds values h).written below large, (hholds values h).unwritten below large⟩⟩

/-- The form is saved, and then a button pressed that reboots. -/
theorem visits_keep_last_save_reboot :
    ∃ file', Transition.run step [(plainSystem, .submit (defaultForm saveButton)),
        (plainSystem, .submit (defaultForm rebootWord))] none = some file' ∧
      ∀ below large, (Config.mk file' below large).get .dataPort =
        Setting.dataPort.value large (some (Config.noFile.shown .dataPort)) := by
  obtain ⟨file', hrun, -, hget⟩ := visits_keep_last_save none
    [(plainSystem, .submit (defaultForm saveButton)),
      (plainSystem, .submit (defaultForm rebootWord))]
    (by
      intro call hcall
      simp only [List.mem_cons, List.not_mem_nil, or_false] at hcall
      rcases hcall with rfl | rfl
      · exact fit_save
      · exact fit_defaultForm (by decide +kernel))
  exact ⟨file', hrun, fun below large ↦ (hget _ rfl below large).1 .dataPort (by decide)⟩

end Visit

/-! ## The page sent back -/

/-- When a form that fits is sent back with the values the page shows, every setting stays as
it is; only the two that are read and never written go back to their defaults. -/
theorem page_sent_back (sys sys' : Surroundings) (file : Option (List Byte)) (form : FilledForm)
    (hshown : form.values = (sys.config file).shown) (hfit : Fit form)
    (hbutton : ¬ rebootWord <:+: form.button) (hwritable : sys'.writable = true) :
    ∃ reply reply' file', Form.main sys Visit.view.request file = some (reply, file) ∧
      (∀ k : FormKey, outItem k.szKey ((sys.config file).get k.setting) (cDef.get k.setting)
        k.szItem <:+: reply.page) ∧
      Form.main sys' (Visit.submit form).request file = some (reply', file') ∧
      ∀ below large,
        (∀ k : FormKey, k ≠ .minSingal →
          (Config.mk file' below large).get k.setting = (sys.config file).get k.setting) ∧
        ∀ s ∈ [Setting.idelSecond, .minSignalLevel],
          (Config.mk file' below large).get s = s.default := by
  have hsaves : Visit.saves sys' (.submit form) = some form.values :=
    if_neg (not_or.mpr ⟨hbutton, by rw [hwritable]; decide⟩)
  obtain ⟨file', hstep, -, hsaved⟩ := Visit.step_holds (.submit form) hfit sys' file
  obtain ⟨⟨reply', _⟩, hmain, rfl⟩ := Option.map_eq_some_iff.mp hstep
  have hholds := hsaved _ hsaves
  refine ⟨⟨printPage [] (sys.config file), false⟩, reply', _, rfl,
    outItem_isInfix_printPage [] (sys.config file), hmain, fun below large ↦
      ⟨fun k hk ↦ ?_, hholds.unwritten below large⟩⟩
  rw [hholds.written below large k hk, hshown]
  exact Setting.value_print (sys.config file) large k.setting

theorem page_sent_back_defaults :
    ∃ reply reply' file', Form.main plainSystem Visit.view.request none = some (reply, none) ∧
      (∀ k : FormKey, outItem k.szKey ((plainSystem.config none).get k.setting)
        (cDef.get k.setting) k.szItem <:+: reply.page) ∧
      Form.main plainSystem (Visit.submit (defaultForm saveButton)).request none =
        some (reply', file') ∧
      ∀ below large,
        (∀ k : FormKey, k ≠ .minSingal → (Config.mk file' below large).get k.setting =
          (plainSystem.config none).get k.setting) ∧
        ∀ s ∈ [Setting.idelSecond, .minSignalLevel],
          (Config.mk file' below large).get s = s.default :=
  page_sent_back plainSystem plainSystem none (defaultForm saveButton) rfl fit_save (by decide) rfl

end DeviceAgent
