import FileSwarm.Hex
import FileSwarm.Text

/-!
# Reading INI text

A text holds sections, `[name]`, of entries, `key = value`. A semicolon or a number sign at the start
of a line begins a comment. In names, keys and values a backslash escapes what follows; values may be
quoted, in pieces. A key runs up to the next equals sign or colon, over line ends if need be.

* `Token`, `readUntil` : text up to a character that ends it, escapes resolved, and what follows;
* `readValue` : a value;
* `skipBlanks` : what may stand between two items;
* `readItems` : all sections;
* `parse`, `lookup` : a whole text, and the first value of a key in the first section of a name.
-/

namespace FileSwarm.Ini

/-- A section and its entries, in order. What comes before the first section has no name. -/
structure Section where
  name : Option String
  entries : List (String × String)
deriving DecidableEq, Repr, Inhabited

/-- Text that was read, unless it was malformed, and what was left to read. -/
structure Token where
  text : Option (List Char)
  rest : List Char
  /-- Whether malformed text leaves off at the start of a line. -/
  atStart : Bool := false

/-- The character a letter after a backslash stands for. -/
def unescape (c : Char) : Char :=
  if c = '0' then Char.ofNat 0
  else if c = 'a' then Char.ofNat 7
  else if c = 'b' then Char.ofNat 8
  else if c = 't' then '\t'
  else if c = 'r' then '\r'
  else if c = 'n' then '\n'
  else c

/-- The character with a code of four characters: hexadecimal digits, the first of which may be a plus
sign instead. -/
def charOfCode? (code : List Char) : Option Char := do
  let digits := if code.head? = some '+' then code.tail else code
  let n ← Hex.toNat? digits
  if Nat.isValidChar n then return Char.ofNat n else none

/-- Reading stops in a bad code at its last character, after a backslash that no line end follows, or
at the end. `atStart` says whether a line starts here. -/
def codeStop : (left : Nat) → List Char → (atStart : Bool) → Token
  | _, [], atStart => ⟨none, [], atStart⟩
  | 0, rest, atStart => ⟨none, rest, atStart⟩
  | 1, '\\' :: '\n' :: rest, _ => ⟨none, '\n' :: rest, false⟩
  | n + 1, '\\' :: '\n' :: rest, _ => codeStop n rest true
  | _, '\\' :: rest, _ => ⟨none, rest, false⟩
  | 1, rest, atStart => ⟨none, rest, atStart⟩
  | n + 2, c :: rest, _ => codeStop (n + 1) rest (c = '\n')

theorem codeStop_length (n : Nat) (cs : List Char) (atStart : Bool) :
    (codeStop n cs atStart).rest.length ≤ cs.length := by
  fun_induction codeStop n cs atStart <;> grind

/-- Read up to a character that `stop` holds of, or to the end if `atEnd`; `text` was read before, last
character first. A backslash at the very end stands for itself, and one before a line end takes the
line end away. -/
def readUntil (stop : Char → Bool) (atEnd : Bool) : (cs text : List Char) → Token
  | [], text => { text := if atEnd then some text.reverse else none, rest := [] }
  | c :: rest, text =>
    if stop c then { text := some text.reverse, rest := c :: rest }
    else if c = '\\' then
      match rest with
      | [] => readUntil stop atEnd [] ('\\' :: text)
      | '\n' :: rest => readUntil stop atEnd rest text
      | 'x' :: a :: b :: c :: d :: rest =>
        match charOfCode? [a, b, c, d] with
        | some char => readUntil stop atEnd rest (char :: text)
        | none => codeStop 4 (a :: b :: c :: d :: rest) false
      | 'x' :: rest => codeStop 4 rest false
      | e :: rest => readUntil stop atEnd rest (unescape e :: text)
    else readUntil stop atEnd rest (c :: text)

theorem readUntil_length (stop : Char → Bool) (atEnd : Bool) (cs text : List Char) :
    (readUntil stop atEnd cs text).rest.length ≤ cs.length := by
  fun_induction readUntil stop atEnd cs text
  case case1 | case2 => exact Nat.le_refl _
  case case6 => exact Nat.le_trans (codeStop_length ..) (by simp only [List.length_cons]; omega)
  case case7 => exact Nat.le_trans (codeStop_length ..) (by simp only [List.length_cons]; omega)
  all_goals
    rename_i ih
    exact Nat.le_trans ih (by simp only [List.length_cons]; omega)

theorem readUntil_length_cons {stop : Char → Bool} {c : Char} (h : stop c = false) (atEnd : Bool)
    (rest text : List Char) :
    (readUntil stop atEnd (c :: rest) text).rest.length ≤ rest.length := by
  unfold readUntil
  simp only [h, Bool.false_eq_true, if_false]
  split
  · split
    · exact Nat.zero_le _
    · exact Nat.le_trans (readUntil_length ..) (by simp only [List.length_cons]; omega)
    · split
      · exact Nat.le_trans (readUntil_length ..) (by simp only [List.length_cons]; omega)
      · exact Nat.le_trans (codeStop_length ..) (by simp only [List.length_cons]; omega)
    · exact Nat.le_trans (codeStop_length ..) (by simp only [List.length_cons]; omega)
    · exact Nat.le_trans (readUntil_length ..) (by simp only [List.length_cons]; omega)
  · exact readUntil_length ..

def isQuote (c : Char) : Bool := c = '\x22' || c = '\x27'

def isLineEnd (c : Char) : Bool := c = '\n' || c = '\r'

def isIndent (c : Char) : Bool := c = ' ' || c = '\t'

def endsKey (c : Char) : Bool := c = '=' || c = ':'

/-- The pieces of a value: quoted ones, then one up to the end of the line. That one loses the blanks
at its end, and those at its start too if it is the `first`. -/
def readPieces (cs : List Char) (first : Bool) (text : List Char) : Token :=
  match cs with
  | [] => { text := some text, rest := [] }
  | c :: rest =>
    if isQuote c then
      let piece := readUntil (· = c) false rest []
      match piece.text with
      | some quoted => readPieces (piece.rest.drop 1) false (text ++ quoted)
      | none => piece
    else
      let piece := readUntil isLineEnd true (c :: rest) []
      { piece with
        text := piece.text.map fun plain =>
          text ++ if first then Text.trimChars plain else Text.dropBlankEnd plain }
termination_by cs.length
decreasing_by
  have := readUntil_length (· = c) false rest []
  simp only [List.length_drop, List.length_cons]
  omega

theorem readPieces_length (cs : List Char) (first : Bool) (text : List Char) :
    (readPieces cs first text).rest.length ≤ cs.length := by
  fun_induction readPieces cs first text with
  | case1 => exact Nat.le_refl _
  | case2 first text c rest hq piece quoted hs ih =>
    have := readUntil_length (· = c) false rest []
    simp only [List.length_drop, List.length_cons, piece] at *
    omega
  | case3 first text c rest hq piece hs =>
    have := readUntil_length (· = c) false rest []
    simp only [List.length_cons, piece] at *
    omega
  | case4 first text c rest hq piece =>
    have := readUntil_length isLineEnd true (c :: rest) []
    simp only [List.length_cons, piece] at *
    omega

/-- A value, from the character after the equals sign on. -/
def readValue (cs : List Char) : Token :=
  readPieces (cs.dropWhile fun c => Text.isBlank c && !isLineEnd c) true []

theorem readValue_length (cs : List Char) : (readValue cs).rest.length ≤ cs.length :=
  Nat.le_trans (readPieces_length ..) (List.dropWhile_suffix _).length_le

/-- Pass over blanks after an item, up to a line that starts with a space or a tab; whether what is
left starts a line. -/
def skipBlanks : (cs : List Char) → (atStart : Bool) → List Char × Bool
  | [], atStart => ([], atStart)
  | c :: rest, atStart =>
    if isIndent c then skipBlanks rest false
    else if isLineEnd c then
      if rest.head?.any isIndent then (rest, c = '\n') else skipBlanks rest (c = '\n')
    else if Text.isBlank c then skipBlanks rest false
    else (c :: rest, atStart)

theorem skipBlanks_length (cs : List Char) (atStart : Bool) :
    (skipBlanks cs atStart).1.length ≤ cs.length := by
  fun_induction skipBlanks cs atStart <;> simp only [List.length_cons, List.length_nil] at * <;> omega

/-- What follows the line. -/
def afterLine (cs : List Char) : List Char := (cs.dropWhile (· ≠ '\n')).drop 1

theorem afterLine_length (cs : List Char) : (afterLine cs).length ≤ cs.length := by
  have := (List.dropWhile_suffix (l := cs) (· ≠ '\n')).length_le
  simp only [afterLine, List.length_drop]
  omega

def trimmed (text : List Char) : String := String.ofList (Text.trimChars text)

/-- Open a section. -/
def openSection (name : List Char) (sections : List Section) : List Section :=
  ⟨some (trimmed name), []⟩ :: sections

/-- Put an entry at the end of the section that was opened last. -/
def addEntry (key : String) (value : List Char) : List Section → List Section
  | [] => [⟨none, [(key, String.ofList value)]⟩]
  | s :: rest => { s with entries := s.entries ++ [(key, String.ofList value)] } :: rest

/-- Read items to the end. `atStart` says whether a line starts here, `key` is the key read last,
empty if its value was read too, and `sections` has those read, the last one first. -/
def readItems (cs : List Char) (atStart : Bool) (key : String) (sections : List Section) :
    Option (List Section) :=
  match cs with
  | [] => some sections
  | c :: rest =>
    if c = ';' || c = '#' then
      if atStart then
        let next := skipBlanks (afterLine rest) true
        readItems next.1 next.2 key sections
      else none
    else if isLineEnd c then
      let next := skipBlanks rest (c = '\n')
      readItems next.1 next.2 key sections
    else if c = '[' then
      let name := readUntil (· = ']') false rest []
      match name.text with
      | none => none
      | some text =>
        let next := skipBlanks (name.rest.drop 1) false
        readItems next.1 next.2 key (openSection text sections)
    else if _hk : endsKey c then
      if key = "" then none
      else
        let value := readValue rest
        match value.text with
        | none => none
        | some text =>
          let next := skipBlanks value.rest false
          readItems next.1 next.2 "" (addEntry key text sections)
    else if isIndent c then
      match _h : rest.dropWhile isIndent with
      | [] => some sections
      | d :: after =>
        if d = '[' then
          let name := readUntil (· = ']') false after []
          match name.text with
          | none => none
          | some text =>
            let next := skipBlanks (name.rest.drop 1) false
            readItems next.1 next.2 key (openSection text sections)
        else if isLineEnd d then readItems after (d = '\n') key sections
        else
          let name := readUntil endsKey false (d :: after) []
          let next := skipBlanks name.rest name.atStart
          readItems next.1 next.2 ((name.text.map trimmed).getD key) sections
    else
      let name := readUntil endsKey false (c :: rest) []
      match name.text with
      | none => none
      | some text =>
        let next := skipBlanks name.rest false
        readItems next.1 next.2 (trimmed text) sections
termination_by cs.length
decreasing_by
  · exact Nat.lt_succ_of_le (Nat.le_trans (skipBlanks_length ..) (afterLine_length rest))
  · exact Nat.lt_succ_of_le (skipBlanks_length ..)
  · have h1 := readUntil_length (· = ']') false rest []
    have h2 := skipBlanks_length ((readUntil (· = ']') false rest []).rest.drop 1) false
    simp only [List.length_drop, List.length_cons] at *
    omega
  · exact Nat.lt_succ_of_le (Nat.le_trans (skipBlanks_length ..) (readValue_length rest))
  · have h0 := (List.dropWhile_suffix (l := rest) isIndent).length_le
    have h1 := readUntil_length (· = ']') false after []
    have h2 := skipBlanks_length ((readUntil (· = ']') false after []).rest.drop 1) false
    simp only [_h, List.length_drop, List.length_cons] at *
    omega
  · have h0 := (List.dropWhile_suffix (l := rest) isIndent).length_le
    simp only [_h, List.length_cons] at *
    omega
  · have h0 := (List.dropWhile_suffix (l := rest) isIndent).length_le
    have h1 := readUntil_length endsKey false (d :: after) []
    have h2 := skipBlanks_length (readUntil endsKey false (d :: after) []).rest
      (readUntil endsKey false (d :: after) []).atStart
    simp only [_h, List.length_cons] at *
    omega
  · have h1 := @readUntil_length_cons endsKey c (by simpa using _hk) false rest []
    have h2 := skipBlanks_length (readUntil endsKey false (c :: rest) []).rest false
    simp only [List.length_cons] at *
    omega

/-- The mark some editors put in front of a text. -/
def byteOrderMark : Char := Char.ofNat 0xFEFF

/-- The sections of a text, in order, or `none` if it is malformed. -/
def parse (text : String) : Option (List Section) :=
  let cs := text.toList
  let cs := if cs.head? = some byteOrderMark then cs.tail else cs
  (readItems cs true "" []).map (·.reverse)

/-- The first value of a key in the first section of a name. -/
def lookup (sections : List Section) (name key : String) : Option String :=
  (sections.find? (·.name = some name)).bind fun s =>
    (s.entries.find? (·.1 = key)).map (·.2)

end FileSwarm.Ini
