import DeviceAgent.Foundations.Text
import DeviceAgent.Crc16

/-!
# Reading the configuration file

`GetValue` looks for the first line that starts with a key and `=`.  Each getter
of `Config` hands it its own key and falls back on its own default.

A line that starts with a blank makes the reader walk down from the line's array
through the memory in front of it, for as long as it finds blanks there.  How
many there are is not the program's to say: it is the parameter `below`.  What `atoi`
makes of a number that is no `int` is not defined either: it is the parameter `large`.
-/

namespace DeviceAgent

def NUL : Byte := 0x00#8
def LF : Byte := 0x0a#8
def SPACE : Byte := 0x20#8
def HASH : Byte := 0x23#8
def EQUALS : Byte := 0x3d#8

def ascii (chars : List Char) : List Byte := chars.map fun c ↦ BitVec.ofNat 8 c.toNat

/-- What the string functions see of an array. -/
def cString (array : List Byte) : List Byte := array.takeWhile (· != NUL)

theorem takeWhile_bne_self {c : Byte} {text : List Byte} (h : c ∉ text) :
    text.takeWhile (· != c) = text := by
  rw [List.takeWhile_eq_self_iff]
  exact fun b hb ↦ bne_iff_ne.mpr (ne_of_mem_of_not_mem hb h)

theorem takeWhile_bne_append {c : Byte} {text : List Byte} (h : c ∉ text) (more : List Byte) :
    (text ++ c :: more).takeWhile (· != c) = text := by
  rw [List.takeWhile_append_of_pos fun b hb ↦ bne_iff_ne.mpr (ne_of_mem_of_not_mem hb h)]
  simp

theorem cString_of_notMem {array : List Byte} (h : NUL ∉ array) : cString array = array :=
  takeWhile_bne_self h

/-! ## The keys -/

namespace Key

def SERVER : List Byte := ascii ['S', 'E', 'R', 'V', 'E', 'R']
def MP_PORT : List Byte := ascii ['M', 'P', '_', 'P', 'O', 'R', 'T']
def MACHINE : List Byte := ascii ['M', 'A', 'C', 'H', 'I', 'N', 'E']
def MODEM_DELAY : List Byte := ascii ['M', 'O', 'D', 'E', 'M', '_', 'D', 'E', 'L', 'A', 'Y']
def POWERON_DELAY : List Byte :=
  ascii ['P', 'O', 'W', 'E', 'R', 'O', 'N', '_', 'D', 'E', 'L', 'A', 'Y']
def DATA_PORT : List Byte := ascii ['D', 'A', 'T', 'A', '_', 'P', 'O', 'R', 'T']
def LOG_LEVEL : List Byte := ascii ['L', 'O', 'G', '_', 'L', 'E', 'V', 'E', 'L']
def COMMAND_PORT : List Byte := ascii ['C', 'O', 'M', 'M', 'A', 'N', 'D', '_', 'P', 'O', 'R', 'T']
def APN : List Byte := ascii ['A', 'P', 'N']
def LOCAL_IP : List Byte := ascii ['L', 'O', 'C', 'A', 'L', '_', 'I', 'P']
def MODEM_IP : List Byte := ascii ['M', 'O', 'D', 'E', 'M', '_', 'I', 'P']
def USERNAME : List Byte := ascii ['U', 'S', 'E', 'R', 'N', 'A', 'M', 'E']
def MIN_SIGNAL : List Byte := ascii ['M', 'I', 'N', '_', 'S', 'I', 'G', 'N', 'A', 'L']
def INTERVAL : List Byte := ascii ['I', 'N', 'T', 'E', 'R', 'V', 'A', 'L']
def IDELTIME : List Byte := ascii ['I', 'D', 'E', 'L', 'T', 'I', 'M', 'E']
def PASSWORD : List Byte := ascii ['P', 'A', 'S', 'S', 'W', 'O', 'R', 'D']

end Key

/-! ## `GetValue` -/

/-- What `GetValue` makes of the line that has the key: the result, and what it
copies from behind the `=`.  `strtok` has ended the line where its line break was. -/
def copyValue (szKey : List Byte) (nLen : ℤ) (nSpace : ℕ) (line : List Byte) : ℤ × List Byte :=
  let nLine : ℤ := if nSpace ≠ 0 then line.length - nSpace - 1 else line.length
  let temp := nLine - szKey.length
  if nLen < temp then (temp, [])
  else
    let copied := if line.getLast? = some LF then temp - 1 else temp
    (0, ((line.takeWhile (· != LF)).drop (szKey.length + 1)).take copied.toNat)

/-- The loop over the lines as `fgets` gets them; `none` if no line has the key.
The count of blanks is not reset between lines. -/
def getValueLoop (below : ℕ) (szKey : List Byte) (nLen : ℤ) :
    ℕ → List (List Byte) → Option (ℤ × List Byte)
  | _, [] => none
  | nSpace, read :: rest =>
      if read.head? = some HASH then getValueLoop below szKey nLen nSpace rest
      else
        let line := cString read
        let nSpace := if line.head? = some SPACE then nSpace + (below + 1) else nSpace
        if szKey ++ [EQUALS] <+: line.takeWhile (· != LF) then
          some (copyValue szKey nLen nSpace line)
        else getValueLoop below szKey nLen nSpace rest

/-- The result and the string left in `pBuf`.  When the file ends in a line break
the last `fgets` gets nothing.  The reader then looks at the byte in front of the array
for a line break; that the read is harmless is taken for granted, and what it finds is not
used, since the empty line has no key. -/
def getValue (below : ℕ) (szFile : Option (List Byte)) (szKey : List Byte) (nLen : ℤ) :
    ℤ × List Byte :=
  match szFile with
  | none => (-1, [])
  | some contents =>
      (getValueLoop below szKey nLen 0 (Text.readLines LF 1023 [] contents)).getD (-2, [])

def isSpace (b : Byte) : Bool := b = SPACE || (0x09 ≤ b.toNat && b.toNat ≤ 0x0d)

def isDigit (b : Byte) : Bool := 0x30 ≤ b.toNat && b.toNat ≤ 0x39

def digits (text : List Byte) : ℤ :=
  (text.takeWhile isDigit).foldl (fun n b ↦ 10 * n + (b.toNat - 0x30 : ℕ)) 0

/-- The number a text starts with. -/
def leadingInt (text : List Byte) : ℤ :=
  match text.dropWhile isSpace with
  | [] => 0
  | b :: rest =>
      if b = 0x2d#8 then - digits rest
      else if b = 0x2b#8 then digits rest
      else digits (b :: rest)

/-- The number, if it is an `int`, and otherwise what the library makes of it. -/
def asInt (large : ℤ → BitVec 32) (x : ℤ) : ℤ :=
  if -(2 ^ 31) ≤ x ∧ x < 2 ^ 31 then x else (large x).toInt

def atoi (large : ℤ → BitVec 32) (text : List Byte) : ℤ := asInt large (leadingInt text)

theorem asInt_bounds (large : ℤ → BitVec 32) (x : ℤ) :
    -(2 ^ 31) ≤ asInt large x ∧ asInt large x < 2 ^ 31 := by
  unfold asInt
  split
  · assumption
  · have hlow := BitVec.le_two_mul_toInt (x := large x)
    have hhigh := BitVec.two_mul_toInt_lt (x := large x)
    omega

/-! ## The getters -/

/-- A configuration object: the contents of its file, if there is one, what `GetValue`
finds in front of its line, and what `atoi` makes of numbers that are no `int`. -/
structure Config where
  file : Option (List Byte)
  below : ℕ
  large : ℤ → BitVec 32

namespace Config

def noFile : Config := ⟨none, 0, fun _ ↦ 0#32⟩

def getText (conf : Config) (szKey szDef : List Byte) : List Byte :=
  let (nRet, tmp) := getValue conf.below conf.file szKey 1024
  if nRet = 0 then tmp else szDef

def getNumber (conf : Config) (szKey : List Byte) (nDef : ℤ) : ℤ :=
  let (nRet, tmp) := getValue conf.below conf.file szKey 1024
  if nRet = 0 then atoi conf.large tmp else nDef

def getServerName (conf : Config) : List Byte := conf.getText Key.SERVER []
def getMPdev (conf : Config) : List Byte := conf.getText Key.MP_PORT []
def getMachine (conf : Config) : ℤ := conf.getNumber Key.MACHINE 1
def getModemDelay (conf : Config) : ℤ := conf.getNumber Key.MODEM_DELAY 60
def getPowerOnDelay (conf : Config) : ℤ := conf.getNumber Key.POWERON_DELAY 90
def getDataPort (conf : Config) : ℤ := conf.getNumber Key.DATA_PORT 50001
def getTraceLevel (conf : Config) : ℤ := conf.getNumber Key.LOG_LEVEL 3
def getCommandPort (conf : Config) : ℤ := conf.getNumber Key.COMMAND_PORT 50101
def getAPN (conf : Config) : List Byte :=
  conf.getText Key.APN <|
    ascii ['b', 'g', 'a', 'n', '.', 'i', 'n', 'm', 'a', 'r', 's', 'a', 't', '.', 'c', 'o', 'm']
def getIP (conf : Config) : List Byte := conf.getText Key.LOCAL_IP []
def getModemIP (conf : Config) : List Byte :=
  conf.getText Key.MODEM_IP <|
    ascii ['1', '9', '2', '.', '1', '6', '8', '.', '1', '.', '3', '5']
def getUserName (conf : Config) : List Byte := conf.getText Key.USERNAME []
def getMinSignalLevel (conf : Config) : ℤ := conf.getNumber Key.MIN_SIGNAL 45
def getIntervalSecond (conf : Config) : ℤ := conf.getNumber Key.INTERVAL 600
def getIdelSecond (conf : Config) : ℤ := conf.getNumber Key.IDELTIME 20
def getPassword (conf : Config) : List Byte := conf.getText Key.PASSWORD []

end Config

/-- What a getter returns. -/
inductive Value
  | text (s : List Byte)
  | number (n : ℤ)
  deriving DecidableEq

inductive Setting
  | serverName
  | mPdev
  | machine
  | modemDelay
  | powerOnDelay
  | dataPort
  | traceLevel
  | commandPort
  | aPN
  | iP
  | modemIP
  | userName
  | minSignalLevel
  | intervalSecond
  | idelSecond
  | password
  deriving DecidableEq

def Config.get (conf : Config) : Setting → Value
  | .serverName => .text conf.getServerName
  | .mPdev => .text conf.getMPdev
  | .machine => .number conf.getMachine
  | .modemDelay => .number conf.getModemDelay
  | .powerOnDelay => .number conf.getPowerOnDelay
  | .dataPort => .number conf.getDataPort
  | .traceLevel => .number conf.getTraceLevel
  | .commandPort => .number conf.getCommandPort
  | .aPN => .text conf.getAPN
  | .iP => .text conf.getIP
  | .modemIP => .text conf.getModemIP
  | .userName => .text conf.getUserName
  | .minSignalLevel => .number conf.getMinSignalLevel
  | .intervalSecond => .number conf.getIntervalSecond
  | .idelSecond => .number conf.getIdelSecond
  | .password => .text conf.getPassword

namespace Setting

/-- The key a getter hands to `GetValue`. -/
def key : Setting → List Byte
  | .serverName => Key.SERVER
  | .mPdev => Key.MP_PORT
  | .machine => Key.MACHINE
  | .modemDelay => Key.MODEM_DELAY
  | .powerOnDelay => Key.POWERON_DELAY
  | .dataPort => Key.DATA_PORT
  | .traceLevel => Key.LOG_LEVEL
  | .commandPort => Key.COMMAND_PORT
  | .aPN => Key.APN
  | .iP => Key.LOCAL_IP
  | .modemIP => Key.MODEM_IP
  | .userName => Key.USERNAME
  | .minSignalLevel => Key.MIN_SIGNAL
  | .intervalSecond => Key.INTERVAL
  | .idelSecond => Key.IDELTIME
  | .password => Key.PASSWORD

/-- What a getter returns for a file without its key. -/
def default (s : Setting) : Value := Config.noFile.get s

/-- What a getter makes of the text found for its key. -/
def value (large : ℤ → BitVec 32) (s : Setting) : Option (List Byte) → Value
  | none => s.default
  | some v =>
      match s.default with
      | .text _ => .text v
      | .number _ => .number (atoi large v)

end Setting

/-- The text that the file of a configuration has for a key. -/
def Config.found (conf : Config) (szKey : List Byte) : Option (List Byte) :=
  let (nRet, tmp) := getValue conf.below conf.file szKey 1024
  if nRet = 0 then some tmp else none

namespace Config

theorem getText_eq (conf : Config) (szKey szDef : List Byte) :
    conf.getText szKey szDef = (conf.found szKey).getD szDef := by
  by_cases hret : (getValue conf.below conf.file szKey 1024).1 = 0 <;> simp [getText, found, hret]

theorem getNumber_eq (conf : Config) (szKey : List Byte) (nDef : ℤ) :
    conf.getNumber szKey nDef = ((conf.found szKey).map (atoi conf.large)).getD nDef := by
  by_cases hret : (getValue conf.below conf.file szKey 1024).1 = 0 <;> simp [getNumber, found, hret]

/-- Every getter is its key, what it makes of the text, and its default. -/
theorem get_eq (conf : Config) (s : Setting) :
    conf.get s = s.value conf.large (conf.found s.key) := by
  cases s
  all_goals
    simp only [get, Setting.key, getServerName, getMPdev, getMachine, getModemDelay,
      getPowerOnDelay, getDataPort, getTraceLevel, getCommandPort, getAPN, getIP, getModemIP,
      getUserName, getMinSignalLevel, getIntervalSecond, getIdelSecond, getPassword, getText_eq,
      getNumber_eq]
    cases conf.found _ <;> rfl

end Config

/-! ## What the loop finds -/

/-- By how much a line raises the count of blanks. -/
def indentOf (below : ℕ) (read : List Byte) : ℕ :=
  if read.head? = some SPACE then below + 1 else 0

def indent (below : ℕ) (lines : List (List Byte)) : ℕ := (lines.map (indentOf below)).sum

section Loop

variable {below : ℕ} {szKey : List Byte} {nLen : ℤ}

theorem head?_cString {b : Byte} (hb : b ≠ NUL) (array : List Byte) :
    (cString array).head? = some b ↔ array.head? = some b := by
  cases array with
  | nil => rfl
  | cons a rest =>
      by_cases ha : a = NUL
      · simp [cString, ha, Ne.symm hb]
      · simp [cString, ha]

theorem getValueLoop_cons (nSpace : ℕ) (read : List Byte) (rest : List (List Byte)) :
    getValueLoop below szKey nLen nSpace (read :: rest) =
      (getValueLoop below szKey nLen nSpace [read]).or
        (getValueLoop below szKey nLen (nSpace + indentOf below read) rest) := by
  have hindent : (if (cString read).head? = some SPACE then nSpace + (below + 1) else nSpace) =
      nSpace + indentOf below read := by
    simp only [indentOf, head?_cString (show SPACE ≠ NUL by decide)]
    split <;> rfl
  by_cases hcomment : read.head? = some HASH
  · have hzero : indentOf below read = 0 := by
      rw [indentOf, hcomment, if_neg (by decide)]
    simp [getValueLoop, hcomment, hzero]
  · simp only [getValueLoop, if_neg hcomment, hindent]
    split <;> rfl

theorem getValueLoop_append (nSpace : ℕ) (lines more : List (List Byte)) :
    getValueLoop below szKey nLen nSpace (lines ++ more) =
      (getValueLoop below szKey nLen nSpace lines).or
        (getValueLoop below szKey nLen (nSpace + indent below lines) more) := by
  induction lines generalizing nSpace with
  | nil => simp [getValueLoop, indent]
  | cons read lines ih =>
      have hsum : indent below (read :: lines) = indentOf below read + indent below lines :=
        List.sum_cons
      rw [List.cons_append, getValueLoop_cons, ih, getValueLoop_cons _ read lines, Option.or_assoc,
        hsum, Nat.add_assoc]

/-- Lines without the key are passed over. -/
theorem getValueLoop_eq_none (nSpace : ℕ) {lines : List (List Byte)}
    (h : ∀ read ∈ lines, ¬ szKey ++ [EQUALS] <+: read) :
    getValueLoop below szKey nLen nSpace lines = none := by
  induction lines generalizing nSpace with
  | nil => rfl
  | cons read lines ih =>
      rw [getValueLoop_cons, ih _ fun l hl ↦ h l (List.mem_cons_of_mem read hl), Option.or_none]
      have hnot : ¬ szKey ++ [EQUALS] <+: (cString read).takeWhile (· != LF) := by
        intro hkey
        refine h read List.mem_cons_self (hkey.trans ?_)
        exact (List.takeWhile_prefix _).trans (List.takeWhile_prefix _)
      simp only [getValueLoop, if_neg hnot, ite_self]

/-- Lines that a search for the key takes no notice of. -/
structure PassedOver (szKey : List Byte) (lines : List (List Byte)) : Prop where
  noKey : ∀ read ∈ lines, ¬ szKey ++ [EQUALS] <+: read
  noBlank : ∀ read ∈ lines, read.head? ≠ some SPACE

theorem PassedOver.append {lines more : List (List Byte)} (h : PassedOver szKey lines)
    (hmore : PassedOver szKey more) : PassedOver szKey (lines ++ more) := by
  constructor
  · intro read hread
    exact (List.mem_append.mp hread).elim (h.noKey read) (hmore.noKey read)
  · intro read hread
    exact (List.mem_append.mp hread).elim (h.noBlank read) (hmore.noBlank read)

theorem PassedOver.flatMap {β : Type*} {parts : List β} {lines : β → List (List Byte)}
    (h : ∀ p ∈ parts, PassedOver szKey (lines p)) : PassedOver szKey (parts.flatMap lines) := by
  constructor
  · intro read hread
    obtain ⟨p, hp, hread⟩ := List.mem_flatMap.mp hread
    exact (h p hp).noKey read hread
  · intro read hread
    obtain ⟨p, hp, hread⟩ := List.mem_flatMap.mp hread
    exact (h p hp).noBlank read hread

theorem indent_eq_zero {lines : List (List Byte)}
    (h : ∀ read ∈ lines, read.head? ≠ some SPACE) : indent below lines = 0 := by
  refine List.sum_eq_zero fun n hn ↦ ?_
  obtain ⟨read, hread, rfl⟩ := List.mem_map.mp hn
  exact if_neg (h read hread)

theorem PassedOver.getValueLoop_append {lines : List (List Byte)} (h : PassedOver szKey lines)
    (nSpace : ℕ) (more : List (List Byte)) :
    getValueLoop below szKey nLen nSpace (lines ++ more) =
      getValueLoop below szKey nLen nSpace more := by
  rw [DeviceAgent.getValueLoop_append, getValueLoop_eq_none nSpace h.noKey,
    indent_eq_zero h.noBlank, Option.none_or, Nat.add_zero]

end Loop

/-! ## Lines that have the key -/

def isNameByte (b : Byte) : Bool := (0x41 ≤ b.toNat && b.toNat ≤ 0x5a) || b = 0x5f#8

/-- The keys are words of capital letters and underscores. -/
structure IsName (word : List Byte) : Prop where
  ne_nil : word ≠ []
  bytes : ∀ b ∈ word, isNameByte b = true

theorem IsName.notMem {word : List Byte} (h : IsName word) {b : Byte}
    (hb : isNameByte b = false) : b ∉ word :=
  fun hmem ↦ by simp [h.bytes b hmem] at hb

theorem IsName.equals_notMem {word : List Byte} (h : IsName word) : EQUALS ∉ word :=
  h.notMem (by decide)

theorem IsName.lf_notMem {word : List Byte} (h : IsName word) : LF ∉ word :=
  h.notMem (by decide)

theorem IsName.nul_notMem {word : List Byte} (h : IsName word) : NUL ∉ word :=
  h.notMem (by decide)

theorem Setting.isName_key (s : Setting) : IsName s.key := by
  cases s <;> exact ⟨by decide, List.all_eq_true.mp (by decide)⟩

section Match

variable {below : ℕ} {szKey : List Byte} {nLen : ℤ}

theorem isPrefix_lineText (hlf : LF ∉ szKey) (hnul : NUL ∉ szKey) {read : List Byte}
    (hkey : szKey ++ [EQUALS] <+: read) :
    szKey ++ [EQUALS] <+: (cString read).takeWhile (· != LF) := by
  have hfree : ∀ stop, stop ∉ szKey → stop ≠ EQUALS →
      ∀ b ∈ szKey ++ [EQUALS], (b != stop) = true := by
    intro stop hstop hne b hb
    rcases List.mem_append.mp hb with hb | hb
    · exact bne_iff_ne.mpr (ne_of_mem_of_not_mem hb hstop)
    · exact bne_iff_ne.mpr fun heq ↦ hne (heq ▸ List.mem_singleton.mp hb)
  refine Text.isPrefix_takeWhile (Text.isPrefix_takeWhile hkey ?_) ?_
  · exact hfree NUL hnul (by decide)
  · exact hfree LF hlf (by decide)

/-- A line with the key starts with a letter, so it is no comment and raises no
count. -/
theorem head?_of_key (hname : IsName szKey) {read : List Byte}
    (hkey : szKey ++ [EQUALS] <+: read) {b : Byte} (hb : isNameByte b = false) :
    read.head? ≠ some b := by
  obtain ⟨rest, rfl⟩ := hkey
  obtain ⟨a, word, rfl⟩ := List.exists_cons_of_ne_nil hname.ne_nil
  intro hhead
  obtain rfl : a = b := by simpa using hhead
  exact hname.notMem hb List.mem_cons_self

/-- A line with the key that is no comment is the last one looked at. -/
theorem getValueLoop_of_isPrefix (hlf : LF ∉ szKey) (hnul : NUL ∉ szKey) (nSpace : ℕ)
    {read : List Byte} (hhash : read.head? ≠ some HASH) (hkey : szKey ++ [EQUALS] <+: read) :
    getValueLoop below szKey nLen nSpace [read] =
      some (copyValue szKey nLen (nSpace + indentOf below read) (cString read)) := by
  have hindent : (if (cString read).head? = some SPACE then nSpace + (below + 1) else nSpace) =
      nSpace + indentOf below read := by
    simp only [indentOf, head?_cString (show SPACE ≠ NUL by decide)]
    split <;> rfl
  simp only [getValueLoop, if_neg hhash, hindent, if_pos (isPrefix_lineText hlf hnul hkey)]

theorem getValueLoop_key (hname : IsName szKey) (nSpace : ℕ) {read : List Byte}
    (hkey : szKey ++ [EQUALS] <+: read) :
    getValueLoop below szKey nLen nSpace [read] =
      some (copyValue szKey nLen nSpace (cString read)) := by
  have hhash := head?_of_key hname hkey (show isNameByte HASH = false by decide)
  have hindent : indentOf below read = 0 := if_neg (head?_of_key hname hkey (by decide))
  rw [getValueLoop_of_isPrefix hname.lf_notMem hname.nul_notMem nSpace hhash hkey, hindent,
    Nat.add_zero]

theorem getValueLoop_isSome (hname : IsName szKey) (nSpace : ℕ) {lines : List (List Byte)}
    {read : List Byte} (hread : read ∈ lines) (hkey : szKey ++ [EQUALS] <+: read) :
    (getValueLoop below szKey nLen nSpace lines).isSome = true := by
  induction lines generalizing nSpace with
  | nil => cases hread
  | cons line lines ih =>
      rw [getValueLoop_cons, Option.isSome_or]
      rcases List.mem_cons.mp hread with rfl | hread
      · rw [getValueLoop_key hname nSpace hkey]
        rfl
      · rw [ih _ hread, Bool.or_true]

theorem isPrefix_line (szKey v : List Byte) :
    szKey ++ [EQUALS] <+: szKey ++ EQUALS :: v ++ [LF] :=
  ⟨v ++ [LF], by simp⟩

theorem lf_notMem_line (hlf : LF ∉ szKey) {v : List Byte} (hv : LF ∉ v) :
    LF ∉ szKey ++ EQUALS :: v := by
  rw [List.mem_append, List.mem_cons, not_or, not_or]
  exact ⟨hlf, by decide, hv⟩

theorem nul_notMem_line (hname : IsName szKey) {v : List Byte} (hv : NUL ∉ v) :
    NUL ∉ szKey ++ EQUALS :: v ++ [LF] := by
  rw [List.mem_append, List.mem_append, List.mem_cons, not_or, not_or, not_or]
  exact ⟨⟨hname.nul_notMem, by decide, hv⟩, by decide⟩

theorem drop_line (szKey v : List Byte) : (szKey ++ EQUALS :: v).drop (szKey.length + 1) = v := by
  rw [← List.drop_drop, List.drop_left]
  rfl

/-- The value of a line that fits the buffer is copied whole, less one byte for
each blank counted. -/
theorem copyValue_line (hlf : LF ∉ szKey) {v : List Byte} (nSpace : ℕ) (hv : LF ∉ v)
    (hroom : szKey.length + v.length + 2 ≤ 1023) :
    copyValue szKey 1024 nSpace (szKey ++ EQUALS :: v ++ [LF]) = (0, v.rdrop nSpace) := by
  have htext : (szKey ++ EQUALS :: v ++ [LF]).takeWhile (· != LF) = szKey ++ EQUALS :: v :=
    takeWhile_bne_append (lf_notMem_line hlf hv) []
  have hlast : (szKey ++ EQUALS :: v ++ [LF]).getLast? = some LF := List.getLast?_concat
  have hlen : ((szKey ++ EQUALS :: v ++ [LF]).length : ℤ) = szKey.length + v.length + 2 := by
    simp
    ring
  simp only [copyValue, hlen, htext, hlast, drop_line, if_true]
  rcases Nat.eq_zero_or_pos nSpace with rfl | hpos
  · simp only [ne_eq, not_true_eq_false, if_false]
    rw [if_neg (by omega), List.rdrop_zero, List.take_of_length_le (by omega)]
  · simp only [ne_eq, hpos.ne', not_false_eq_true, if_true]
    rw [if_neg (by omega), List.rdrop]
    congr 2
    omega

theorem getValueLoop_line (hname : IsName szKey) {v : List Byte} (nSpace : ℕ) (hv : LF ∉ v)
    (hnul : NUL ∉ v) (hroom : szKey.length + v.length + 2 ≤ 1023) (rest : List (List Byte)) :
    getValueLoop below szKey 1024 nSpace ((szKey ++ EQUALS :: v ++ [LF]) :: rest) =
      some (0, v.rdrop nSpace) := by
  rw [getValueLoop_cons, getValueLoop_key hname nSpace (isPrefix_line szKey v),
    cString_of_notMem (nul_notMem_line hname hnul), copyValue_line hname.lf_notMem nSpace hv hroom,
    Option.some_or]

end Match

/-- The text that `GetValue` has for a key in these lines. -/
def foundIn (below : ℕ) (szKey : List Byte) (lines : List (List Byte)) : Option (List Byte) :=
  (getValueLoop below szKey 1024 0 lines).bind fun r ↦ if r.1 = 0 then some r.2 else none

theorem Config.found_file (below : ℕ) (large : ℤ → BitVec 32) (contents szKey : List Byte) :
    (Config.mk (some contents) below large).found szKey =
      foundIn below szKey (Text.readLines LF 1023 [] contents) := by
  have hresult : ∀ result : Option (ℤ × List Byte),
      (if (result.getD (-2, [])).1 = 0 then some (result.getD (-2, [])).2 else none) =
        result.bind fun r ↦ if r.1 = 0 then some r.2 else none := by
    rintro (- | r) <;> rfl
  exact hresult _

end DeviceAgent
