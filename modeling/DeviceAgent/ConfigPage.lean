import DeviceAgent.ConfigForm

/-!
# The configuration page

The form program answers every request by a page that lists the settings as the file has
them.  A number that is printed there is the one that `atoi` reads again, because the getters
return numbers of 32 bits.
-/

namespace DeviceAgent

def LESS : Byte := 0x3c#8
def GREATER : Byte := 0x3e#8
def MINUS : Byte := 0x2d#8

/-! ## Printing the page -/

/-- An `int` as it is printed. -/
def printInt (n : ℤ) : List Byte := if n < 0 then MINUS :: decimal (-n) else decimal n

def Value.print : Value → List Byte
  | .text s => s
  | .number n => printInt n

/-- The default on the page: there is a dash for an empty text. -/
def Value.printDefault : Value → List Byte
  | .text s => if s = [] then [MINUS] else s
  | .number n => printInt n

inductive Tag
  | key
  | value
  | default
  | descript
  | prompt
  deriving DecidableEq

def Tag.name : Tag → List Byte
  | .key => ascii "key".toList
  | .value => ascii "value".toList
  | .default => ascii "default".toList
  | .descript => ascii "descript".toList
  | .prompt => ascii "prompt".toList

/-- A line with one element. -/
def outElement (tag : Tag) (text : List Byte) : List Byte :=
  LESS :: tag.name ++ GREATER :: text ++ LESS :: 0x2f#8 :: tag.name ++ [GREATER, LF]

def itemBegin : List Byte := ascii "<item>\n".toList
def itemEnd : List Byte := ascii "</item>\n".toList

/-- Both overloads of `outItem`. -/
def outItem (szName : List Byte) (val default : Value) (szDesc : List Byte) : List Byte :=
  itemBegin ++ outElement .key szName ++ outElement .value val.print ++
    outElement .default default.printDefault ++ outElement .descript szDesc ++ itemEnd

/-- The descriptions on the page are those in the file, but for two. -/
def FormKey.szItem : FormKey → List Byte
  | .commandPort => ascii "TCP port for control command".toList
  | .powerOnDelay => ascii "waiting seconds for MP self test".toList
  | k => k.szDesc

def pageHead : List Byte :=
  ascii "Content-type: text/xml\n\n".toList ++
    ascii "<?xml version=\"1.0\" encoding=\"utf-8\"?>\n".toList ++
    ascii "<?xml-stylesheet type=\"text/xsl\" href=\"config.xsl\"?>\n".toList ++
    ascii "<device_agent_config>\n".toList

def pageEnd : List Byte := ascii "</device_agent_config>\n".toList

def printPage (strMsg : List Byte) (conf : Config) : List Byte :=
  pageHead ++ outElement .prompt strMsg ++
    (FormKey.all.flatMap fun k ↦
      outItem k.szKey (conf.get k.setting) (cDef.get k.setting) k.szItem) ++ pageEnd

/-! ## Numbers -/

theorem toNat_ofDigit {c : Char} (h : c.isDigit = true) :
    (BitVec.ofNat 8 c.toNat).toNat = c.toNat ∧ isDigit (BitVec.ofNat 8 c.toNat) = true := by
  have hrange : 48 ≤ c.toNat ∧ c.toNat ≤ 57 := by
    simpa [Char.isDigit, UInt32.le_iff_toNat_le] using h
  have hbyte : (BitVec.ofNat 8 c.toNat).toNat = c.toNat := by
    rw [BitVec.toNat_ofNat, Nat.mod_eq_of_lt (by omega)]
  exact ⟨hbyte, by simpa [isDigit, hbyte] using hrange⟩

theorem digits_ascii {chars : List Char} (h : ∀ c ∈ chars, c.isDigit = true) :
    digits (ascii chars) = Nat.ofDigitChars 10 chars 0 := by
  have hall : (ascii chars).takeWhile isDigit = ascii chars := by
    rw [List.takeWhile_eq_self_iff]
    intro b hb
    obtain ⟨c, hc, rfl⟩ := List.mem_map.mp hb
    exact (toNat_ofDigit (h c hc)).2
  have hfold : ∀ acc : ℕ, (ascii chars).foldl
      (fun (n : ℤ) b ↦ 10 * n + (b.toNat - 0x30 : ℕ)) acc = Nat.ofDigitChars 10 chars acc := by
    clear hall
    induction chars with
    | nil => exact fun acc ↦ rfl
    | cons c chars ih =>
        intro acc
        have hbyte := (toNat_ofDigit (h c List.mem_cons_self)).1
        have hrest := ih (fun d hd ↦ h d (List.mem_cons_of_mem c hd)) (10 * acc + (c.toNat - 48))
        simpa [ascii, Nat.ofDigitChars, hbyte] using hrest
  rw [digits, hall]
  exact hfold 0

theorem digits_decimal {n : ℤ} (hn : 0 ≤ n) : digits (decimal n) = n := by
  have hdigits : ∀ c ∈ Nat.toDigits 10 n.toNat, c.isDigit = true := fun c hc ↦
    Nat.isDigit_of_mem_toDigits (by decide) (by decide) hc
  rw [decimal, digits_ascii hdigits, Nat.ofDigitChars_toDigits (by decide) (by decide)]
  exact Int.toNat_of_nonneg hn

theorem decimal_cons (n : ℤ) : ∃ b rest, decimal n = b :: rest ∧ isDigit b = true := by
  cases hdigits : Nat.toDigits 10 n.toNat with
  | nil => exact absurd hdigits Nat.toDigits_ne_nil
  | cons c chars =>
      have hc : c.isDigit = true :=
        Nat.isDigit_of_mem_toDigits (b := 10) (n := n.toNat) (by decide) (by decide)
          (by rw [hdigits]; exact List.mem_cons_self)
      exact ⟨_, ascii chars, by rw [decimal, hdigits]; rfl, (toNat_ofDigit hc).2⟩

theorem isDigit_plain : ∀ b : Byte, isDigit b = true →
    isSpace b = false ∧ b ≠ MINUS ∧ b ≠ PLUS := by
  decide

theorem leadingInt_decimal {n : ℤ} (hn : 0 ≤ n) : leadingInt (decimal n) = n := by
  have hvalue := digits_decimal hn
  obtain ⟨b, rest, hcons, hb⟩ := decimal_cons n
  obtain ⟨hspace, hminus, hplus⟩ := isDigit_plain b hb
  rw [hcons] at hvalue ⊢
  rw [leadingInt, List.dropWhile_cons_of_neg (by rw [hspace]; decide)]
  simp only [MINUS, PLUS] at hminus hplus
  simpa only [if_neg hminus, if_neg hplus] using hvalue

theorem leadingInt_printInt (n : ℤ) : leadingInt (printInt n) = n := by
  unfold printInt
  split_ifs with hneg
  · rw [leadingInt, List.dropWhile_cons_of_neg (by decide)]
    simp only [MINUS, if_true, digits_decimal (show 0 ≤ -n by omega), neg_neg]
  · exact leadingInt_decimal (by omega)

/-- A number that an `int` holds is read back as it was printed. -/
theorem atoi_printInt (large : ℤ → BitVec 32) {n : ℤ} (hn : -(2 ^ 31) ≤ n ∧ n < 2 ^ 31) :
    atoi large (printInt n) = n := by
  rw [atoi, leadingInt_printInt, asInt, if_pos hn]

theorem Config.getNumber_bounds (conf : Config) (szKey : List Byte) {nDef : ℤ}
    (hdef : -(2 ^ 31) ≤ nDef ∧ nDef < 2 ^ 31) :
    -(2 ^ 31) ≤ conf.getNumber szKey nDef ∧ conf.getNumber szKey nDef < 2 ^ 31 := by
  rw [Config.getNumber_eq]
  cases conf.found szKey with
  | none => exact hdef
  | some text => exact asInt_bounds conf.large _

/-! ## What the page shows -/

/-- The text that is printed for the value of a key. -/
def Config.shown (conf : Config) (k : FormKey) : List Byte := (conf.get k.setting).print

/-- A value on the page stands for itself. -/
theorem Setting.value_print (conf : Config) (large : ℤ → BitVec 32) (s : Setting) :
    s.value large (some (conf.get s).print) = conf.get s := by
  cases s <;> first
    | rfl
    | exact congrArg Value.number (atoi_printInt large (conf.getNumber_bounds _ (by decide)))

/-- The item of every key is on the page, with the value that is shown for it. -/
theorem outItem_isInfix_printPage (strMsg : List Byte) (conf : Config) (k : FormKey) :
    outItem k.szKey (conf.get k.setting) (cDef.get k.setting) k.szItem <:+:
      printPage strMsg conf := by
  have hitems : outItem k.szKey (conf.get k.setting) (cDef.get k.setting) k.szItem <:+:
      FormKey.all.flatMap fun k ↦
        outItem k.szKey (conf.get k.setting) (cDef.get k.setting) k.szItem := by
    rw [List.flatMap_def]
    exact List.infix_of_mem_flatten (List.mem_map_of_mem k.mem_all)
  rw [printPage]
  exact hitems.trans ⟨_, _, rfl⟩

end DeviceAgent
