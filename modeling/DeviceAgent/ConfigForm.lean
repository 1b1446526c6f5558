import DeviceAgent.ConfigFile

/-!
# Saving a submitted configuration form

The CGI program looks each of its fifteen keys up in the body of the request by
a search for the key's letters, decodes what stands behind them up to the next
`&`, and writes the configuration file line by line.

Here the body is the one a browser makes from the fields of the form.  What is
looked up for a key is described from the fields alone, and the file that is
written is described as the lines that `GetValue` will read.
-/

namespace DeviceAgent

def PERCENT : Byte := 0x25#8
def AMP : Byte := 0x26#8
def PLUS : Byte := 0x2b#8

/-! ## Looking up a key in the body -/

def hexValue (b : Byte) : Option ℕ :=
  if isDigit b then some (b.toNat - 0x30)
  else if 0x41 ≤ b.toNat && b.toNat ≤ 0x46 then some (b.toNat - 0x37)
  else if 0x61 ≤ b.toNat && b.toNat ≤ 0x66 then some (b.toNat - 0x57)
  else none

/-- The number that `sscanf` reads from two bytes with `%2x`, or `?` if the first
is no hexadecimal digit.  On other bytes than digits it would also skip blanks and take
a sign or `0x`; no encoded value has a `%` in front of such bytes. -/
def scanCode (high low : Byte) : Byte :=
  match hexValue high, hexValue low with
  | some h, some l => BitVec.ofNat 8 (16 * h + l)
  | some h, none => BitVec.ofNat 8 h
  | none, _ => 0x3f#8

/-- What is written to `dest` before the final line break.  The loop ends when
`src` is `last`; a `%` in the last two bytes makes it jump over that. -/
def urldecode : List Byte → Option (List Byte)
  | [] => some []
  | b :: rest =>
      if b = PLUS then (urldecode rest).map (SPACE :: ·)
      else if b = PERCENT then
        match rest with
        | high :: low :: rest => (urldecode rest).map (scanCode high low :: ·)
        | _ => none
      else (urldecode rest).map (b :: ·)

/-- The string found for a key; `none` if the function leaves its buffers: when
nothing stands behind the key, the decoder starts behind its own end, and a value
of more than 1022 bytes does not fit. -/
def getKey (szKey szBuf : List Byte) : Option (List Byte) :=
  match Text.search szKey szBuf with
  | none => some []
  | some found =>
      match (found.drop szKey.length).takeWhile (· != AMP) with
      | [] => none
      | _ :: src =>
          (urldecode src).bind fun dest ↦
            if dest.length + 2 ≤ 1024 then some (cString (dest ++ [LF])) else none

/-! ## Writing the file -/

inductive FormKey
  | server
  | dataPort
  | commandPort
  | interval
  | powerOnDelay
  | logLevel
  | mpPort
  | machine
  | apn
  | localIP
  | modemIP
  | userName
  | password
  | modemDelay
  | minSingal
  deriving DecidableEq

/-- The default values are those of a configuration without a file. -/
def cDef : Config := .noFile

def decimal (n : ℤ) : List Byte := ascii (Nat.toDigits 10 n.toNat)

namespace FormKey

/-- The keys in the order in which `save_config` writes them. -/
def all : List FormKey :=
  [server, dataPort, commandPort, interval, powerOnDelay, logLevel, mpPort, machine, apn, localIP,
    modemIP, userName, password, modemDelay, minSingal]

theorem mem_all (k : FormKey) : k ∈ all := by
  cases k <;> decide

def szKey : FormKey → List Byte
  | server => Key.SERVER
  | dataPort => Key.DATA_PORT
  | commandPort => Key.COMMAND_PORT
  | interval => Key.INTERVAL
  | powerOnDelay => Key.POWERON_DELAY
  | logLevel => Key.LOG_LEVEL
  | mpPort => Key.MP_PORT
  | machine => Key.MACHINE
  | apn => Key.APN
  | localIP => Key.LOCAL_IP
  | modemIP => Key.MODEM_IP
  | userName => Key.USERNAME
  | password => Key.PASSWORD
  | modemDelay => Key.MODEM_DELAY
  | minSingal => ascii ['M', 'I', 'N', '_', 'S', 'I', 'N', 'G', 'A', 'L']

def szDef : FormKey → List Byte
  | server => cDef.getServerName
  | dataPort => decimal cDef.getDataPort
  | commandPort => decimal cDef.getCommandPort
  | interval => decimal cDef.getIntervalSecond
  | powerOnDelay => decimal cDef.getPowerOnDelay
  | logLevel => decimal cDef.getTraceLevel
  | mpPort => cDef.getMPdev
  | machine => decimal cDef.getMachine
  | apn => cDef.getAPN
  | localIP => cDef.getIP
  | modemIP => cDef.getModemIP
  | userName => cDef.getUserName
  | password => cDef.getPassword
  | modemDelay => decimal cDef.getModemDelay
  | minSingal => decimal cDef.getMinSignalLevel

def szDesc : FormKey → List Byte
  | server => ascii "Server address".toList
  | dataPort => ascii "TCP port for data transmit".toList
  | commandPort => ascii "TCP port for control command port".toList
  | interval => ascii "communication interval in seconds".toList
  | powerOnDelay => ascii "waiting second for MP self test".toList
  | logLevel => ascii "log message detail level, 0-9, 0 for more, 9 for less detail".toList
  | mpPort => ascii "device file name for MP".toList
  | machine => ascii "Part No. of  MP".toList
  | apn => ascii "satellite access APN".toList
  | localIP => ascii "public IP for satellite modem".toList
  | modemIP => ascii "satellite modem access IP".toList
  | userName => ascii "satellite modem user name".toList
  | password => ascii "access password".toList
  | modemDelay => ascii "modem AT command response waiting second".toList
  | minSingal => ascii "minimum satellite signal level".toList

/-- The getter that a key is meant for. -/
def setting : FormKey → Setting
  | server => .serverName
  | dataPort => .dataPort
  | commandPort => .commandPort
  | interval => .intervalSecond
  | powerOnDelay => .powerOnDelay
  | logLevel => .traceLevel
  | mpPort => .mPdev
  | machine => .machine
  | apn => .aPN
  | localIP => .iP
  | modemIP => .modemIP
  | userName => .userName
  | password => .password
  | modemDelay => .modemDelay
  | minSingal => .minSignalLevel

end FormKey

/-- The part of the printed text that is not the comment. -/
def printEntry (k : FormKey) (strVal : List Byte) : List Byte :=
  k.szKey ++ EQUALS :: (if strVal = [] then k.szDef else strVal) ++ [LF]

def printConfig (szBuf : List Byte) (k : FormKey) : Option (List Byte) :=
  (getKey k.szKey szBuf).map fun strVal ↦ HASH :: k.szDesc ++ LF :: printEntry k strVal

/-- The contents of the file that is written. -/
def saveConfig (szBuf : List Byte) : Option (List Byte) :=
  (FormKey.all.mapM (printConfig szBuf)).map List.flatten

/-! ## What a browser submits -/

def unreserved (b : Byte) : Bool :=
  isDigit b || (0x41 ≤ b.toNat && b.toNat ≤ 0x5a) || (0x61 ≤ b.toNat && b.toNat ≤ 0x7a) ||
    b = 0x2a#8 || b = 0x2d#8 || b = 0x2e#8 || b = 0x5f#8

def hexDigit (n : ℕ) : Byte := BitVec.ofNat 8 (if n < 10 then 0x30 + n else 0x37 + n)

def encodeByte (b : Byte) : List Byte :=
  if unreserved b then [b]
  else if b = SPACE then [PLUS]
  else [PERCENT, hexDigit (b.toNat / 16), hexDigit (b.toNat % 16)]

def encode (v : List Byte) : List Byte := v.flatMap encodeByte

/-- A field of the form with its value. -/
def field (f : FormKey × List Byte) : List Byte := f.1.szKey ++ EQUALS :: encode f.2

/-- The body of the request: the fields with `&` between them. -/
def body : List (FormKey × List Byte) → List Byte
  | [] => []
  | [f] => field f
  | f :: g :: rest => field f ++ AMP :: body (g :: rest)

/-! ## Decoding what was encoded -/

theorem IsName.amp_notMem {word : List Byte} (h : IsName word) : AMP ∉ word :=
  h.notMem (by decide)

theorem unreserved_ne {b c : Byte} (hb : unreserved b = true) (hc : unreserved c = false) :
    b ≠ c := by
  rintro rfl
  simp [hb] at hc

theorem unreserved_of_isNameByte : ∀ b : Byte, isNameByte b = true → unreserved b = true := by
  decide

theorem unreserved_hexDigit : ∀ b : Byte, unreserved (hexDigit (b.toNat / 16)) = true ∧
    unreserved (hexDigit (b.toNat % 16)) = true := by
  decide

theorem scanCode_hexDigit :
    ∀ b : Byte, scanCode (hexDigit (b.toNat / 16)) (hexDigit (b.toNat % 16)) = b := by
  decide

theorem urldecode_unreserved {b : Byte} (hb : unreserved b = true) (t : List Byte) :
    urldecode (b :: t) = (urldecode t).map (b :: ·) := by
  have hplus : b ≠ PLUS := unreserved_ne hb (by decide)
  have hpercent : b ≠ PERCENT := unreserved_ne hb (by decide)
  rw [urldecode.eq_def]
  simp only [if_neg hplus, if_neg hpercent]

theorem urldecode_encodeByte (b : Byte) (t : List Byte) :
    urldecode (encodeByte b ++ t) = (urldecode t).map (b :: ·) := by
  unfold encodeByte
  split
  · rename_i hb
    exact urldecode_unreserved hb t
  · split
    · rename_i hb
      rw [hb, List.singleton_append, urldecode.eq_def]
      simp only [if_true]
    · have hplus : PERCENT ≠ PLUS := by decide
      rw [List.cons_append, urldecode.eq_def]
      simp only [if_neg hplus, if_true, List.cons_append, List.nil_append, scanCode_hexDigit]

theorem urldecode_encode (v : List Byte) : urldecode (encode v) = some v := by
  induction v with
  | nil => rfl
  | cons b v ih =>
      rw [encode, List.flatMap_cons, urldecode_encodeByte, ← encode, ih]
      rfl

theorem encode_cons (b : Byte) (v : List Byte) : encode (b :: v) = encodeByte b ++ encode v :=
  List.flatMap_cons

theorem encode_append (v w : List Byte) : encode (v ++ w) = encode v ++ encode w :=
  List.flatMap_append

theorem notMem_encode {c : Byte} (hc : unreserved c = false) (hplus : c ≠ PLUS)
    (hpercent : c ≠ PERCENT) (v : List Byte) : c ∉ encode v := by
  intro hmem
  obtain ⟨b, -, hb⟩ := List.mem_flatMap.mp hmem
  obtain ⟨hhigh, hlow⟩ := unreserved_hexDigit b
  unfold encodeByte at hb
  split at hb
  · rename_i hfree
    exact unreserved_ne hfree hc (List.mem_singleton.mp hb).symm
  · split at hb
    · exact hplus (List.mem_singleton.mp hb)
    · simp only [List.mem_cons, List.not_mem_nil, or_false] at hb
      rcases hb with hb | hb | hb
      · exact hpercent hb
      · exact unreserved_ne hhigh hc hb.symm
      · exact unreserved_ne hlow hc hb.symm

theorem amp_notMem_encode (v : List Byte) : AMP ∉ encode v :=
  notMem_encode (by decide) (by decide) (by decide) v

/-! ## What is looked up for a key, from the fields -/

namespace FormKey

theorem isName_szKey (k : FormKey) : IsName k.szKey := by
  cases k <;> exact ⟨by decide, List.all_eq_true.mp (by decide)⟩

/-- No key is part of another. -/
theorem search_szKey {j k : FormKey} (h : j ≠ k) : Text.search j.szKey k.szKey = none := by
  have hall : ∀ j ∈ all, ∀ k ∈ all, j ≠ k → Text.search j.szKey k.szKey = none := by
    decide
  exact hall j (mem_all j) k (mem_all k) h

end FormKey

/-- The rest of the field in which the key occurs first, behind the key: its own
field, unless an earlier one has the letters of the key in its value. -/
def behind (k : FormKey) : List (FormKey × List Byte) → Option (List Byte)
  | [] => none
  | f :: rest =>
      if f.1 = k then some (EQUALS :: encode f.2)
      else ((Text.search k.szKey (encode f.2)).map (·.drop k.szKey.length)).or (behind k rest)

theorem search_field (k : FormKey) (f : FormKey × List Byte) :
    Text.search k.szKey (field f) =
      if f.1 = k then some (field f) else Text.search k.szKey (encode f.2) := by
  have hname := k.isName_szKey
  split
  · rename_i hk
    rw [field, hk]
    exact Text.search_of_isPrefix (List.prefix_append _ _)
  · rename_i hk
    rw [field, Text.search_append_sep hname.ne_nil hname.equals_notMem,
      FormKey.search_szKey (Ne.symm hk), Option.map_none, Option.none_or]

theorem amp_notMem_field (f : FormKey × List Byte) : AMP ∉ field f := by
  rw [field, List.mem_append, List.mem_cons, not_or, not_or]
  exact ⟨f.1.isName_szKey.amp_notMem, by decide, amp_notMem_encode f.2⟩

/-- What stands behind the key in one field, also if other fields follow. -/
theorem drop_takeWhile_field {k : FormKey} {f : FormKey × List Byte} {found : List Byte}
    (h : Text.search k.szKey (field f) = some found) (more : List Byte) :
    ((found ++ AMP :: more).drop k.szKey.length).takeWhile (· != AMP) =
      found.drop k.szKey.length := by
  obtain ⟨hsuffix, hprefix⟩ := Text.search_spec h
  have hfree : AMP ∉ found.drop k.szKey.length := fun hmem ↦
    amp_notMem_field f (hsuffix.subset (List.mem_of_mem_drop hmem))
  rw [List.drop_append_of_le_length hprefix.length_le, takeWhile_bne_append hfree]

theorem behind_cons (k : FormKey) (f : FormKey × List Byte) (rest : List (FormKey × List Byte)) :
    behind k (f :: rest) =
      ((Text.search k.szKey (field f)).map (·.drop k.szKey.length)).or (behind k rest) := by
  rw [behind, search_field]
  split
  · rename_i hk
    rw [field, hk, Option.map_some, List.drop_left, Option.some_or]
  · rfl

/-- The search over the whole body finds what the fields say. -/
theorem search_body (k : FormKey) (fields : List (FormKey × List Byte)) :
    (Text.search k.szKey (body fields)).map
        (fun found ↦ (found.drop k.szKey.length).takeWhile (· != AMP)) = behind k fields := by
  have hname := k.isName_szKey
  induction fields with
  | nil => simp [body, behind, Text.search, hname.ne_nil]
  | cons f rest ih =>
      rw [behind_cons]
      cases rest with
      | nil =>
          cases hf : Text.search k.szKey (field f) with
          | none => simp [body, behind, hf]
          | some found =>
              obtain ⟨hsuffix, -⟩ := Text.search_spec hf
              have hfree : AMP ∉ found.drop k.szKey.length := fun hmem ↦
                amp_notMem_field f (hsuffix.subset (List.mem_of_mem_drop hmem))
              simp [body, behind, hf, takeWhile_bne_self hfree]
      | cons g rest =>
          rw [body, Text.search_append_sep hname.ne_nil hname.amp_notMem]
          cases hf : Text.search k.szKey (field f) with
          | none => simpa using ih
          | some found => simp [drop_takeWhile_field hf]

/-- The value decoded for a key, if the decoder stays within its buffers. -/
def decoded (k : FormKey) (fields : List (FormKey × List Byte)) : Option (List Byte) :=
  (behind k fields).bind fun text ↦
    match text with
    | [] => none
    | _ :: src => (urldecode src).bind fun dest ↦
        if dest.length ≤ 1022 then some dest else none

theorem behind_isSome {k : FormKey} {fields : List (FormKey × List Byte)}
    (hk : k ∈ fields.map Prod.fst) : (behind k fields).isSome = true := by
  induction fields with
  | nil => cases hk
  | cons f rest ih =>
      rw [behind]
      split
      · rfl
      · rename_i hne
        rw [List.map_cons, List.mem_cons] at hk
        rw [Option.isSome_or, ih (hk.resolve_left (Ne.symm hne)), Bool.or_true]

theorem getKey_body {k : FormKey} {fields : List (FormKey × List Byte)}
    (hk : k ∈ fields.map Prod.fst) :
    getKey k.szKey (body fields) = (decoded k fields).map fun dest ↦ cString (dest ++ [LF]) := by
  have hbody := search_body k fields
  obtain ⟨text, htext⟩ := Option.isSome_iff_exists.mp (behind_isSome hk)
  rw [htext] at hbody
  obtain ⟨found, hfound, htake⟩ := Option.map_eq_some_iff.mp hbody
  simp only [getKey, decoded, hfound, htake, htext, Option.bind_some]
  cases text with
  | nil => rfl
  | cons b src =>
      cases hdest : urldecode src with
      | none => simp [hdest]
      | some dest => by_cases hlen : dest.length ≤ 1022 <;> simp [hdest, hlen]

/-! ## The file as the reader gets it -/

theorem mapM_eq_some {α β : Type*} {l : List α} {f : α → Option β} {g : α → β}
    (h : ∀ a ∈ l, f a = some (g a)) : l.mapM f = some (l.map g) := by
  induction l with
  | nil => rfl
  | cons a l ih =>
      simp [List.mapM_cons, h a List.mem_cons_self, ih fun b hb ↦ h b (List.mem_cons_of_mem a hb)]

theorem mapM_eq_none {α β : Type*} {l : List α} {f : α → Option β} {a : α} (ha : a ∈ l)
    (h : f a = none) : l.mapM f = none := by
  induction l with
  | nil => cases ha
  | cons b l ih =>
      rcases List.mem_cons.mp ha with rfl | ha
      · simp [List.mapM_cons, h]
      · simp [List.mapM_cons, ih ha]

/-- The line in front of an entry. -/
def comment (k : FormKey) : List Byte := HASH :: k.szDesc ++ [LF]

/-- The lines of the entry that is printed for a decoded value. -/
def entryLines (k : FormKey) (dest : List Byte) : List (List Byte) :=
  Text.readLines LF 1023 [] (printEntry k (cString (dest ++ [LF])))

/-- The lines of a file in which these keys have these decoded values. -/
def fileLines (ks : List FormKey) (dest : FormKey → List Byte) : List (List Byte) :=
  ks.flatMap fun k ↦ comment k :: entryLines k (dest k)

theorem FormKey.szDesc_line (k : FormKey) : LF ∉ k.szDesc ∧ k.szDesc.length < 1000 := by
  cases k <;> decide

theorem readLines_printed (k : FormKey) (strVal : List Byte) :
    Text.readLines LF 1023 [] (HASH :: k.szDesc ++ LF :: printEntry k strVal) =
      comment k :: Text.readLines LF 1023 [] (printEntry k strVal) := by
  obtain ⟨hfree, hlen⟩ := k.szDesc_line
  refine Text.readLines_line ?_ ?_ _
  · rw [List.mem_cons, not_or]
    exact ⟨by decide, hfree⟩
  · rw [List.length_cons]
    omega

section Saved

variable {fields : List (FormKey × List Byte)} {dest : FormKey → List Byte}

/-- Every key has a field. -/
def Complete (fields : List (FormKey × List Byte)) : Prop := ∀ k, k ∈ fields.map Prod.fst

theorem saveConfig_eq_some (hall : Complete fields)
    (hdest : ∀ k, decoded k fields = some (dest k)) :
    saveConfig (body fields) = some (FormKey.all.flatMap fun k ↦
      HASH :: k.szDesc ++ LF :: printEntry k (cString (dest k ++ [LF]))) := by
  rw [saveConfig, mapM_eq_some (g := fun k ↦
    HASH :: k.szDesc ++ LF :: printEntry k (cString (dest k ++ [LF])))]
  · rw [Option.map_some, List.flatMap_def]
  · intro k _
    rw [printConfig, getKey_body (hall k), hdest k]
    rfl

theorem saveConfig_eq_none (hall : Complete fields) {k : FormKey} (hk : decoded k fields = none) :
    saveConfig (body fields) = none := by
  have hprint : printConfig (body fields) k = none := by
    rw [printConfig, getKey_body (hall k), hk]
    rfl
  rw [saveConfig, mapM_eq_none (FormKey.mem_all k) hprint]
  rfl

theorem readLines_saved (ks : List FormKey) (dest : FormKey → List Byte) :
    Text.readLines LF 1023 [] (ks.flatMap fun k ↦
      HASH :: k.szDesc ++ LF :: printEntry k (cString (dest k ++ [LF]))) = fileLines ks dest := by
  have hblock : ∀ k, HASH :: k.szDesc ++ LF :: printEntry k (cString (dest k ++ [LF])) =
      (HASH :: k.szDesc ++ LF :: (k.szKey ++ EQUALS ::
        (if cString (dest k ++ [LF]) = [] then k.szDef else cString (dest k ++ [LF])))) ++
          [LF] := by
    intro k
    simp [printEntry]
  simp only [hblock, Text.readLines_flatMap]
  simp only [← hblock, readLines_printed]
  rfl

/-- What a getter returns on the file written for a submission, if the program
stays within its buffers. -/
def saved (below : ℕ) (large : ℤ → BitVec 32) (s : Setting)
    (fields : List (FormKey × List Byte)) : Option Value :=
  (saveConfig (body fields)).map fun contents ↦ (Config.mk (some contents) below large).get s

theorem saved_eq_some (below : ℕ) (large : ℤ → BitVec 32) (s : Setting) (hall : Complete fields)
    (hdest : ∀ k, decoded k fields = some (dest k)) :
    saved below large s fields =
      some (s.value large (foundIn below s.key (fileLines FormKey.all dest))) := by
  rw [saved, saveConfig_eq_some hall hdest, Option.map_some, Config.get_eq, Config.found_file,
    readLines_saved]

theorem saved_eq_none (below : ℕ) (large : ℤ → BitVec 32) (s : Setting) (hall : Complete fields)
    {k : FormKey} (hk : decoded k fields = none) : saved below large s fields = none := by
  rw [saved, saveConfig_eq_none hall hk, Option.map_none]

end Saved

/-! ## Entries of one line -/

theorem FormKey.length_szKey (k : FormKey) : k.szKey.length < 1000 := by
  cases k <;> decide

theorem FormKey.eq_of_szKey {j k : FormKey} (h : j.szKey = k.szKey) : j = k := by
  by_contra hne
  have hnone := search_szKey hne
  rw [Text.search_of_isPrefix (h ▸ List.prefix_refl _)] at hnone
  cases hnone

/-- The getters read the keys that are written, but for one. -/
theorem FormKey.setting_key {k : FormKey} (hk : k ≠ .minSingal) : k.setting.key = k.szKey := by
  cases k <;> first | rfl | exact absurd rfl hk

/-- The first line of an entry has its key. -/
theorem entryLines_cons (k : FormKey) (dest : List Byte) :
    ∃ line rest, entryLines k dest = line :: rest ∧ k.szKey ++ [EQUALS] <+: line := by
  have hfree : LF ∉ k.szKey ++ [EQUALS] := by
    rw [List.mem_append, not_or]
    exact ⟨k.isName_szKey.lf_notMem, by decide⟩
  have hroom := k.length_szKey
  generalize hval : (if cString (dest ++ [LF]) = [] then k.szDef else cString (dest ++ [LF])) = val
  have hread : Text.readLines LF 1023 [] (k.szKey ++ [EQUALS] ++ (val ++ [LF])) =
      Text.readLines LF 1023 (k.szKey ++ [EQUALS]) (val ++ [LF]) :=
    Text.readLines_append hfree (by simp; omega) (val ++ [LF])
  obtain ⟨line, rest, heq, hprefix⟩ : ∃ line rest,
      Text.readLines LF 1023 (k.szKey ++ [EQUALS]) (val ++ [LF]) = line :: rest ∧
        k.szKey ++ [EQUALS] <+: line :=
    Text.readLines_head (by simp) (val ++ [LF])
  refine ⟨line, rest, ?_, hprefix⟩
  rw [entryLines, printEntry, hval, ← heq, ← hread]
  simp

/-- A key that a line starts with is the only one. -/
theorem key_unique {k : FormKey} {szKey line : List Byte} (hname : IsName szKey)
    (hk : k.szKey ++ [EQUALS] <+: line) (h : szKey ++ [EQUALS] <+: line) : szKey = k.szKey := by
  obtain ⟨rest, rfl⟩ := hk
  rw [List.append_assoc, List.singleton_append] at h
  exact Text.eq_of_isPrefix_sep hname.equals_notMem k.isName_szKey.equals_notMem h

/-- A value that makes one line of the file. -/
structure Plain (k : FormKey) (dest : List Byte) : Prop where
  noBreak : LF ∉ dest
  noNul : NUL ∉ dest
  room : k.szKey.length + dest.length + 2 ≤ 1023

theorem Plain.entryLines_eq {k : FormKey} {dest : List Byte} (h : Plain k dest) :
    entryLines k dest = [k.szKey ++ EQUALS :: dest ++ [LF], [LF]] := by
  have hnul : NUL ∉ dest ++ [LF] := by
    rw [List.mem_append, not_or]
    exact ⟨h.noNul, by decide⟩
  have hroom : (k.szKey ++ EQUALS :: dest).length < 1023 := by
    have := h.room
    simp only [List.length_append, List.length_cons]
    omega
  have hline := Text.readLines_line (lf_notMem_line k.isName_szKey.lf_notMem h.noBreak) hroom [LF]
  rw [entryLines, printEntry, cString_of_notMem hnul, if_neg (by simp)]
  simpa [Text.readLines] using hline

theorem comment_passedOver {szKey : List Byte} (hname : IsName szKey) (k : FormKey) :
    PassedOver szKey [comment k] := by
  constructor
  · intro read hread hkey
    obtain rfl := List.mem_singleton.mp hread
    exact head?_of_key hname hkey (show isNameByte HASH = false by decide) rfl
  · intro read hread
    obtain rfl := List.mem_singleton.mp hread
    intro hhead
    exact absurd (Option.some.inj hhead) (by decide)

theorem Plain.passedOver {k : FormKey} {dest szKey : List Byte} (h : Plain k dest)
    (hname : IsName szKey) (hne : szKey ≠ k.szKey) : PassedOver szKey (entryLines k dest) := by
  have hkey := isPrefix_line k.szKey dest
  rw [h.entryLines_eq]
  constructor
  · intro read hread hprefix
    simp only [List.mem_cons, List.not_mem_nil, or_false] at hread
    rcases hread with rfl | rfl
    · exact hne (key_unique hname hkey hprefix)
    · exact head?_of_key hname hprefix (show isNameByte LF = false by decide) rfl
  · intro read hread
    simp only [List.mem_cons, List.not_mem_nil, or_false] at hread
    rcases hread with rfl | rfl
    · exact head?_of_key k.isName_szKey hkey (by decide)
    · decide

theorem getValueLoop_entry {below : ℕ} {k : FormKey} {dest : List Byte} (h : Plain k dest)
    (nSpace : ℕ) (more : List (List Byte)) :
    getValueLoop below k.szKey 1024 nSpace (entryLines k dest ++ more) =
      some (0, dest.rdrop nSpace) := by
  rw [h.entryLines_eq, List.cons_append,
    getValueLoop_line k.isName_szKey nSpace h.noBreak h.noNul h.room]

theorem fileLines_cons (k : FormKey) (ks : List FormKey) (dest : FormKey → List Byte) :
    fileLines (k :: ks) dest = [comment k] ++ (entryLines k (dest k) ++ fileLines ks dest) := by
  simp [fileLines]

theorem fileLines_append (ks more : List FormKey) (dest : FormKey → List Byte) :
    fileLines (ks ++ more) dest = fileLines ks dest ++ fileLines more dest :=
  List.flatMap_append

theorem fileLines_passedOver {szKey : List Byte} (hname : IsName szKey) {ks : List FormKey}
    {dest : FormKey → List Byte} (h : ∀ k ∈ ks, PassedOver szKey (entryLines k (dest k))) :
    PassedOver szKey (fileLines ks dest) :=
  PassedOver.flatMap fun k hk ↦ (comment_passedOver hname k).append (h k hk)

section PlainFile

variable {dest : FormKey → List Byte}

/-- In a file of plain entries a key has the value of its own entry. -/
theorem foundIn_plain (below : ℕ) (h : ∀ k, Plain k (dest k)) (k : FormKey) :
    foundIn below k.szKey (fileLines FormKey.all dest) = some (dest k) := by
  have hname := k.isName_szKey
  obtain ⟨before, after, hsplit, hfirst⟩ := List.eq_append_cons_of_mem k.mem_all
  have hbefore : PassedOver k.szKey (fileLines before dest) := by
    refine fileLines_passedOver hname fun j hj ↦ (h j).passedOver hname fun heq ↦ ?_
    exact hfirst (FormKey.eq_of_szKey heq ▸ hj)
  rw [foundIn, hsplit, fileLines_append, hbefore.getValueLoop_append, fileLines_cons,
    (comment_passedOver hname k).getValueLoop_append, getValueLoop_entry (h k), List.rdrop_zero]
  rfl

/-- A key without an entry is not found. -/
theorem foundIn_plain_eq_none (below : ℕ) (h : ∀ k, Plain k (dest k)) {szKey : List Byte}
    (hname : IsName szKey) (hkey : ∀ k : FormKey, szKey ≠ k.szKey) :
    foundIn below szKey (fileLines FormKey.all dest) = none := by
  have hpassed : PassedOver szKey (fileLines FormKey.all dest) :=
    fileLines_passedOver hname fun k _ ↦ (h k).passedOver hname (hkey k)
  rw [foundIn, getValueLoop_eq_none 0 hpassed.noKey]
  rfl

end PlainFile

end DeviceAgent
