import Mathlib
import FileSwarm.Proofs.Text
import FileSwarm.Settings.Ini.Reader
import FileSwarm.Settings.Ini.Writer

/-!
# Reading INI text back

* `soften` : what reading makes of an escaped character; two control characters lose their backslash;
* `readUntil_escape` : escaped text is read character by character, up to one that ends it and was not escaped;
* `readPieces_escape`, `readValue_escape` : the value of an entry; `readPieces_quoted` : one in which a quote was
  written as it is, which reading takes for a mark;
* `Verbatim` : the values that are read back as they were; `Label` : texts fit for keys and names;
* `readLines` : reading on at the start of a line, and what it makes of an entry, an empty line and a section's name;
* `parse_write` : sections of verbatim values are read back.
-/

namespace FileSwarm.Ini

/-! ## Characters -/

/-- What reading makes of an escaped character: there is no letter for a form feed or a vertical tab. -/
def soften (c : Char) : Char :=
  if c.toNat = 12 then 'f' else if c.toNat = 11 then 'v' else c

theorem soften_eq_self {c : Char} : soften c = c ↔ c.toNat ≠ 12 ∧ c.toNat ≠ 11 := by
  unfold soften
  split
  · next h => exact ⟨fun hc => absurd h (by rw [← hc]; decide), fun hc => absurd h hc.1⟩
  · next h =>
    split
    · next hv => exact ⟨fun hc => absurd hv (by rw [← hc]; decide), fun hc => absurd hv hc.2⟩
    · next hv => exact ⟨fun _ => ⟨h, hv⟩, fun _ => rfl⟩

theorem soften_soften (c : Char) : soften (soften c) = soften c := by
  rw [soften_eq_self]
  unfold soften
  split
  · decide
  · next h =>
    split
    · decide
    · next hv => exact ⟨h, hv⟩

theorem soften_of_not_isBlank {c : Char} (h : Text.isBlank c = false) : soften c = c := by
  refine soften_eq_self.2 ⟨fun hc => ?_, fun hc => ?_⟩ <;> simp [Text.isBlank, hc] at h

/-- Hexadecimal codes are written for control characters only, and those are read back. -/
theorem charOfCode?_ofNat : ∀ n < 128, charOfCode? (Hex.ofNat 4 n) = some (Char.ofNat n) := by decide +kernel

/-- The characters that are written as a letter; the reader knows none for 12 and 11. -/
def lettered : List Char :=
  ['\\', Char.ofNat 0, Char.ofNat 7, Char.ofNat 8, Char.ofNat 12, Char.ofNat 11, '\n', '\t', '\r']

/-- A character is written as a letter after a backslash, as a code, or as it is. -/
theorem escapeChar_cases (c : Char) :
    (∃ e, escapeChar c = ['\\', e] ∧ e ≠ '\n' ∧ e ≠ 'x' ∧ unescape e = soften c) ∨
    (escapeChar c = '\\' :: 'x' :: Hex.ofNat 4 c.toNat ∧ c.toNat < 128 ∧ soften c = c) ∨
    (escapeChar c = [c] ∧ c ≠ '\\' ∧ soften c = c) := by
  by_cases hmem : c ∈ lettered
  · simp only [lettered, List.mem_cons, List.not_mem_nil, or_false] at hmem
    rcases hmem with rfl | rfl | rfl | rfl | rfl | rfl | rfl | rfl | rfl
    all_goals exact .inl ⟨_, rfl, by decide, by decide, by decide⟩
  · simp only [lettered, List.mem_cons, List.not_mem_nil, or_false, not_or] at hmem
    obtain ⟨hback, h0, h7, h8, h12, h11, hn, ht, hr⟩ := hmem
    have hcode : ∀ {n}, c ≠ Char.ofNat n → c.toNat ≠ n := fun hne hn => hne (by rw [← hn, Char.ofNat_toNat])
    have hsoft : soften c = c := soften_eq_self.2 ⟨hcode h12, hcode h11⟩
    have hrest : escapeChar c =
        if c.toNat < 32 ∨ c.toNat = 127 then ['\\', 'x'] ++ Hex.ofNat 4 c.toNat else [c] := by
      unfold escapeChar
      dsimp only
      rw [if_neg hback, if_neg (hcode h0), if_neg (hcode h7), if_neg (hcode h8), if_neg (hcode h12), if_neg (hcode h11),
        if_neg hn, if_neg ht, if_neg hr]
    rw [hrest]
    split
    · next hcontrol => exact .inr (.inl ⟨rfl, by omega, hsoft⟩)
    · exact .inr (.inr ⟨rfl, hback, hsoft⟩)

theorem readUntil_escapeChar {stop : Char → Bool} (hback : stop '\\' = false) {c : Char}
    (hc : stop c = true → escapeChar c ≠ [c]) (atEnd : Bool) (rest text : List Char) :
    readUntil stop atEnd (escapeChar c ++ rest) text = readUntil stop atEnd rest (soften c :: text) := by
  rcases escapeChar_cases c with ⟨e, hcode, hn, hx, hletter⟩ | ⟨hcode, hlt, hsoft⟩ | ⟨hplain, hne, hsoft⟩
  · rw [hcode, ← hletter, List.cons_append, List.singleton_append, readUntil.eq_def]
    simp [hback, hx]
  · have hread := charOfCode?_ofNat c.toNat hlt
    rw [Char.ofNat_toNat] at hread
    rw [hcode, hsoft]
    simp only [Hex.ofNat, List.nil_append, List.cons_append] at hread ⊢
    rw [readUntil.eq_def]
    simp only [hback, Bool.false_eq_true, if_false, if_true, hread]
  · have hstop : ¬stop c = true := fun h => hc h hplain
    rw [hplain, hsoft, List.singleton_append, readUntil.eq_def]
    dsimp only
    rw [if_neg hstop, if_neg hne]

theorem readUntil_escape {stop : Char → Bool} (hback : stop '\\' = false) {v : List Char}
    (hv : ∀ c ∈ v, stop c = true → escapeChar c ≠ [c]) (atEnd : Bool) (rest text : List Char) :
    readUntil stop atEnd (escape v ++ rest) text =
      readUntil stop atEnd rest ((v.map soften).reverse ++ text) := by
  induction v generalizing text with
  | nil => rfl
  | cons c v ih =>
    have hstep := readUntil_escapeChar hback (hv c List.mem_cons_self) atEnd (escape v ++ rest) text
    rw [show escape (c :: v) ++ rest = escapeChar c ++ (escape v ++ rest) by simp [escape], hstep,
      ih fun d hd => hv d (List.mem_cons_of_mem _ hd)]
    simp

/-! ## Values -/

/-- No quote in front. -/
def Unquoted (v : List Char) : Prop := ∀ c ∈ v.head?, isQuote c = false

theorem escapeChar_head (c : Char) : escapeChar c = [c] ∨ ∃ code, escapeChar c = '\\' :: code := by
  rcases escapeChar_cases c with ⟨e, hcode, -⟩ | ⟨hcode, -⟩ | ⟨hplain, -⟩
  · exact .inr ⟨_, hcode⟩
  · exact .inr ⟨_, hcode⟩
  · exact .inl hplain

theorem escapeChar_quote {c : Char} (h : isQuote c = true) : escapeChar c = [c] := by
  rcases by simpa [isQuote] using h with rfl | rfl <;> decide

theorem escapeChar_lineEnd {c : Char} (h : isLineEnd c = true) : escapeChar c ≠ [c] := by
  rcases by simpa [isLineEnd] using h with rfl | rfl <;> decide

theorem escape_head (v rest : List Char) : ∃ c tail, escape v ++ '\n' :: rest = c :: tail ∧
    (c = '\n' ∨ c = '\\' ∨ c ∈ v.head?) := by
  cases v with
  | nil => exact ⟨'\n', rest, rfl, .inl rfl⟩
  | cons c v =>
    have hcons : escape (c :: v) ++ '\n' :: rest = escapeChar c ++ (escape v ++ '\n' :: rest) := by simp [escape]
    rw [hcons]
    rcases escapeChar_head c with h | ⟨code, h⟩
    · exact ⟨c, _, by rw [h]; rfl, .inr (.inr rfl)⟩
    · exact ⟨'\\', _, by rw [h]; rfl, .inr (.inl rfl)⟩

theorem readPieces_escape {v : List Char} (hv : Unquoted v) (rest : List Char) (first : Bool) (text : List Char) :
    readPieces (escape v ++ '\n' :: rest) first text =
      { text := some (text ++ if first then Text.trimChars (v.map soften) else Text.dropBlankEnd (v.map soften))
        rest := '\n' :: rest } := by
  have hread : readUntil isLineEnd true (escape v ++ '\n' :: rest) [] =
      { text := some (v.map soften), rest := '\n' :: rest } := by
    rw [readUntil_escape (by decide) (fun c _ => escapeChar_lineEnd), readUntil.eq_def]
    simp [isLineEnd]
  obtain ⟨c, tail, hcons, hhead⟩ := escape_head v rest
  have hquote : isQuote c = false := by
    rcases hhead with rfl | rfl | hhead
    · decide
    · decide
    · exact hv c hhead
  rw [hcons] at hread ⊢
  rw [readPieces, if_neg (by simp [hquote]), hread]
  rfl

theorem readValue_escape {v : List Char} (hv : Text.Tidy v) (rest : List Char) :
    readValue (escape v ++ '\n' :: rest) = readPieces (escape v ++ '\n' :: rest) true [] := by
  obtain ⟨c, tail, hcons, hhead⟩ := escape_head v rest
  have hstays : (Text.isBlank c && !isLineEnd c) = false := by
    rcases hhead with rfl | rfl | hhead
    · decide
    · decide
    · rw [hv.head c hhead, Bool.false_and]
  rw [readValue, hcons, List.dropWhile_cons, if_neg (by simp [hstays])]

theorem tidy_map_soften {v : List Char} (hv : Text.Tidy v) : Text.Tidy (v.map soften) where
  head := by
    rintro c hc
    obtain ⟨d, hd, rfl⟩ := Option.map_eq_some_iff.1 (by simpa using hc)
    rw [soften_of_not_isBlank (hv.head d hd)]
    exact hv.head d hd
  last := by
    rintro c hc
    obtain ⟨d, hd, rfl⟩ := Option.map_eq_some_iff.1 (by simpa using hc)
    rw [soften_of_not_isBlank (hv.last d hd)]
    exact hv.last d hd

theorem count_map_soften {q : Char} (hq : isQuote q = true) (v : List Char) : (v.map soften).count q = v.count q := by
  have hkeeps : ∀ c, soften c = q ↔ c = q := by
    intro c
    unfold soften
    rcases by simpa [isQuote] using hq with rfl | rfl
    all_goals
      split
      · next h => exact ⟨fun hc => absurd hc (by decide), fun hc => absurd h (by rw [hc]; decide)⟩
      · split
        · next h => exact ⟨fun hc => absurd hc (by decide), fun hc => absurd h (by rw [hc]; decide)⟩
        · exact Iff.rfl
  rw [List.count_eq_countP, List.countP_map, List.count_eq_countP]
  refine List.countP_congr fun c _ => ?_
  simp [hkeeps c]

section Quoted

variable {c : Char} (hquote : isQuote c = true)
include hquote

theorem isQuote_ne : c ≠ '\\' ∧ c ≠ '\n' := by
  rcases by simpa [isQuote] using hquote with rfl | rfl <;> decide

theorem readUntil_quote {v : List Char} (hv : c ∉ v) (rest text : List Char) :
    readUntil (· = c) false (escape v ++ rest) text =
      readUntil (· = c) false rest ((v.map soften).reverse ++ text) :=
  readUntil_escape (decide_eq_false (isQuote_ne hquote).1.symm)
    (fun _ hd hstop => absurd (of_decide_eq_true hstop ▸ hd) hv) false rest text

theorem readPieces_closed {v : List Char} (hv : c ∉ v) (rest : List Char) (first : Bool) (text : List Char) :
    readPieces (c :: (escape v ++ c :: rest)) first text = readPieces rest false (text ++ v.map soften) := by
  have hread : readUntil (· = c) false (escape v ++ c :: rest) [] =
      { text := some (v.map soften), rest := c :: rest } := by
    rw [readUntil_quote hquote hv, readUntil.eq_def]
    simp
  rw [readPieces, if_pos hquote]
  simp only [hread, List.drop_succ_cons, List.drop_zero]

theorem readPieces_open {v : List Char} (hv : c ∉ v) (first : Bool) (text : List Char) :
    (readPieces (c :: (escape v ++ ['\n'])) first text).text = none := by
  have hread : (readUntil (· = c) false (escape v ++ ['\n']) []).text = none := by
    rw [readUntil_quote hquote hv, readUntil.eq_def]
    simp [(isQuote_ne hquote).2.symm, readUntil]
  rw [readPieces, if_pos hquote]
  simp only [hread]

end Quoted

/-- In the last line of a text, a value that was read holds no more quotes than were written, and fewer if it
starts with one. -/
theorem readPieces_quoted {v t : List Char} {first : Bool} {text : List Char}
    (ht : (readPieces (escape v ++ ['\n']) first text).text = some t) :
    (readPieces (escape v ++ ['\n']) first text).rest = ['\n'] ∧
      ∀ q, isQuote q = true →
        t.count q ≤ text.count q + v.count q ∧ (q ∈ v.head? → t.count q < text.count q + v.count q) := by
  -- by the length: what follows a piece is shorter than what starts with it
  obtain ⟨n, hn⟩ : ∃ n, v.length = n := ⟨_, rfl⟩
  induction n using Nat.strongRecOn generalizing v first text with
  | ind n ih =>
    by_cases hv : Unquoted v
    · -- the rest is read as it stands, without blanks at its ends
      rw [readPieces_escape hv] at ht ⊢
      refine ⟨rfl, fun q hq => ⟨?_, fun hhead => absurd (hv q hhead) (by simp [hq])⟩⟩
      rw [← Option.some.inj ht, List.count_append, ← count_map_soften hq v]
      refine Nat.add_le_add_left (List.Sublist.count_le q ?_) _
      split
      · exact Text.trimChars_sublist _
      · exact (Text.dropBlankEnd_begins _).sublist
    · obtain ⟨c, hc, hquote⟩ : ∃ c ∈ v.head?, isQuote c = true := by simpa [Unquoted] using hv
      obtain ⟨w, rfl⟩ : ∃ w, v = c :: w := ⟨_, (List.cons_head?_tail hc).symm⟩
      by_cases hmem : c ∈ w
      · obtain ⟨a, b, rfl, hfirst⟩ := List.eq_append_cons_of_mem hmem
        have hcons : escape (c :: (a ++ c :: b)) ++ ['\n'] = c :: (escape a ++ c :: (escape b ++ ['\n'])) := by
          simp [escape, escapeChar_quote hquote]
        rw [hcons, readPieces_closed hquote hfirst] at ht ⊢
        obtain ⟨hrest, hcount⟩ := ih b.length (by simp only [← hn, List.length_cons, List.length_append]; omega) ht rfl
        refine ⟨hrest, fun q hq => ?_⟩
        -- the two marks are gone
        have hle := (hcount q hq).1
        rw [List.count_append, count_map_soften hq] at hle
        rw [List.count_cons, List.count_append, List.count_cons]
        refine ⟨by omega, fun hhead => ?_⟩
        have hsame : c = q := Option.some.inj hhead
        simp only [hsame, beq_self_eq_true, if_true]
        omega
      · have hcons : escape (c :: w) ++ ['\n'] = c :: (escape w ++ ['\n']) := by
          simp [escape, escapeChar_quote hquote]
        rw [hcons, readPieces_open hquote hmem] at ht
        exact nomatch ht

/-! ## Values that are read back -/

/-- What is read back as it was written: no blank at either end, no quote in front, and none of the two control
characters without a letter. -/
structure Verbatim (v : List Char) : Prop where
  tidy : Text.Tidy v
  unquoted : Unquoted v
  kept : ∀ c ∈ v, soften c = c

theorem Verbatim.of_forall {v : List Char} (h : ∀ c ∈ v, Text.isBlank c = false ∧ isQuote c = false) : Verbatim v where
  tidy := .of_forall fun c hc => (h c hc).1
  unquoted := fun c hc => (h c (List.mem_of_mem_head? hc)).2
  kept := fun c hc => soften_of_not_isBlank (h c hc).1

theorem Verbatim.map_soften {v : List Char} (hv : Verbatim v) : v.map soften = v := by
  rw [List.map_congr_left hv.kept, List.map_id']

theorem readValue_verbatim {v : List Char} (hv : Verbatim v) (rest : List Char) :
    readValue (escape v ++ '\n' :: rest) = { text := some v, rest := '\n' :: rest } := by
  rw [readValue_escape hv.tidy, readPieces_escape hv.unquoted, hv.map_soften, if_pos rfl,
    Text.trimChars_eq_self.2 hv.tidy]
  rfl

/-! ## Lines -/

/-- A text fit for a key or a name: letters in lower case and low lines. -/
structure Label (k : String) : Prop where
  nonempty : k ≠ ""
  letters : ∀ c ∈ k.toList, c.isLower = true ∨ c = '_'

theorem letter_bounds {c : Char} (h : c.isLower = true ∨ c = '_') : 95 ≤ c.toNat ∧ c.toNat ≤ 122 := by
  rcases h with h | rfl
  · have hbounds : 97 ≤ c.toNat ∧ c.toNat ≤ 122 := by
      simpa [Char.isLower, UInt32.le_iff_toNat_le, ← Char.toNat_val] using h
    omega
  · decide

/-- A character that means nothing to the reader. -/
structure Plain (c : Char) : Prop where
  escape : escapeChar c = [c]
  soften : soften c = c
  blank : Text.isBlank c = false
  indent : isIndent c = false
  lineEnd : isLineEnd c = false
  keyEnd : endsKey c = false
  comment : c ≠ ';' ∧ c ≠ '#'
  opening : c ≠ '['
  closing : c ≠ ']'

theorem plain_of_letter {c : Char} (h : c.isLower = true ∨ c = '_') : Plain c := by
  obtain ⟨hlow, hhigh⟩ := letter_bounds h
  have hne : ∀ d : Char, d.toNat < 95 → c ≠ d := fun d hd hc => by rw [hc] at hlow; omega
  have hblank : Text.isBlank c = false := by
    simp only [Text.isBlank, Bool.or_eq_false_iff, Bool.and_eq_false_iff, decide_eq_false_iff_not, beq_eq_false_iff_ne]
    omega
  refine ⟨?_, soften_of_not_isBlank hblank, hblank, ?_, ?_, ?_, ⟨hne _ (by decide), hne _ (by decide)⟩,
    hne _ (by decide), hne _ (by decide)⟩
  · unfold escapeChar
    dsimp only
    iterate 10 rw [if_neg (by first | exact hne _ (by decide) | omega)]
  · simp [isIndent, hne ' ' (by decide), hne '\t' (by decide)]
  · simp [isLineEnd, hne '\n' (by decide), hne '\r' (by decide)]
  · simp [endsKey, hne '=' (by decide), hne ':' (by decide)]

section Label

variable {k : String} (hk : Label k)
include hk

theorem Label.escape : Ini.escape k.toList = k.toList := by
  have h : ∀ v : List Char, (∀ c ∈ v, c.isLower = true ∨ c = '_') → Ini.escape v = v := by
    intro v
    induction v with
    | nil => exact fun _ => rfl
    | cons c v ih =>
      intro hv
      rw [Ini.escape, List.flatMap_cons, (plain_of_letter (hv c List.mem_cons_self)).escape]
      exact congrArg (c :: ·) (ih fun d hd => hv d (List.mem_cons_of_mem _ hd))
  exact h k.toList hk.letters

theorem Label.map_soften : k.toList.map soften = k.toList := by
  rw [List.map_congr_left fun c hc => (plain_of_letter (hk.letters c hc)).soften, List.map_id']

theorem Label.trimmed : Ini.trimmed k.toList = k := by
  rw [Ini.trimmed, Text.trimChars_eq_self.2 (.of_forall fun c hc => (plain_of_letter (hk.letters c hc)).blank),
    String.ofList_toList]

theorem Label.eq_cons : ∃ c tail, k.toList = c :: tail ∧ (c.isLower = true ∨ c = '_') := by
  cases hcs : k.toList with
  | nil => exact absurd (String.toList_eq_nil_iff.1 hcs) hk.nonempty
  | cons c tail => exact ⟨c, tail, rfl, hk.letters c (by rw [hcs]; exact List.mem_cons_self)⟩

theorem Label.readUntil (stop : Char → Bool) (hback : stop '\\' = false)
    (hletters : ∀ c, c.isLower = true ∨ c = '_' → stop c = false) {e : Char} (he : stop e = true) (rest : List Char) :
    Ini.readUntil stop false (k.toList ++ e :: rest) [] = { text := some k.toList, rest := e :: rest } := by
  have hread := readUntil_escape hback (v := k.toList)
    (fun c hc hstop => absurd hstop (by rw [hletters c (hk.letters c hc)]; decide)) false (e :: rest) []
  rw [hk.escape, hk.map_soften] at hread
  rw [hread, Ini.readUntil.eq_def]
  simp [he]

end Label

/-- Read on at the start of a line. -/
def readLines (cs : List Char) (sections : List Section) : Option (List Section) :=
  readItems (skipBlanks cs true).1 (skipBlanks cs true).2 "" sections

theorem skipBlanks_line {cs : List Char} (h : cs.head?.any isIndent = false) (atStart : Bool) :
    skipBlanks ('\n' :: cs) atStart = skipBlanks cs true := by
  rw [skipBlanks, if_neg (by decide), if_pos (by decide), if_neg (by simp [h])]
  rfl

theorem skipBlanks_start {c : Char} (h : Text.isBlank c = false) (rest : List Char) (atStart : Bool) :
    skipBlanks (c :: rest) atStart = (c :: rest, atStart) := by
  have hindent : isIndent c = false := by
    rw [Bool.eq_false_iff]
    intro hc
    rcases by simpa [isIndent] using hc with rfl | rfl <;> exact absurd h (by decide)
  have hline : isLineEnd c = false := by
    rw [Bool.eq_false_iff]
    intro hc
    rcases by simpa [isLineEnd] using hc with rfl | rfl <;> exact absurd h (by decide)
  rw [skipBlanks, hindent, hline, h]
  rfl

theorem readLines_empty {cs : List Char} (h : cs.head?.any isIndent = false) (sections : List Section) :
    readLines ('\n' :: cs) sections = readLines cs sections := by
  rw [readLines, skipBlanks_line h, readLines]

theorem readLines_name {name : String} (hname : Label name) {cs : List Char} (h : cs.head?.any isIndent = false)
    (sections : List Section) :
    readLines ('[' :: (name.toList ++ ']' :: '\n' :: cs)) sections = readLines cs (⟨some name, []⟩ :: sections) := by
  have hread := hname.readUntil (· = ']') (by decide)
    (fun c hc => decide_eq_false (plain_of_letter hc).closing) (decide_eq_true rfl) ('\n' :: cs)
  rw [readLines, skipBlanks_start (by decide), readItems, if_neg (by decide), if_neg (by decide), if_pos rfl]
  simp only [hread, List.drop_succ_cons, List.drop_zero, skipBlanks_line h, openSection, hname.trimmed]
  rfl

theorem readLines_key {k : String} (hk : Label k) (cs : List Char) (sections : List Section) :
    readLines (k.toList ++ '=' :: cs) sections =
      (readValue cs).text.bind fun text =>
        readItems (skipBlanks (readValue cs).rest false).1 (skipBlanks (readValue cs).rest false).2 ""
          (addEntry k text sections) := by
  have hread := hk.readUntil endsKey (by decide) (fun c hc => (plain_of_letter hc).keyEnd)
    (show endsKey '=' = true by decide) cs
  obtain ⟨c, tail, hcons, hletter⟩ := hk.eq_cons
  have hplain := plain_of_letter hletter
  rw [hcons, List.cons_append] at hread ⊢
  rw [readLines, skipBlanks_start hplain.blank, readItems, if_neg (by simp [hplain.comment]),
    if_neg (by simp [hplain.lineEnd]), if_neg hplain.opening, dif_neg (by simp [hplain.keyEnd]),
    if_neg (by simp [hplain.indent])]
  simp only [hread, skipBlanks_start (show Text.isBlank '=' = false by decide)]
  rw [← hcons, hk.trimmed, readItems, if_neg (by decide), if_neg (by decide), if_neg (by decide), dif_pos (by decide),
    if_neg hk.nonempty]
  cases h : (readValue cs).text <;> simp only [h] <;> rfl

/-! ## Sections -/

/-- An entry that is read back as it is. -/
structure Faithful (e : String × String) : Prop where
  key : Label e.1
  value : Verbatim e.2.toList

theorem head_label {k : String} (hk : Label k) (rest : List Char) : (k.toList ++ rest).head?.any isIndent = false := by
  obtain ⟨c, tail, hcons, hletter⟩ := hk.eq_cons
  rw [hcons]
  exact (plain_of_letter hletter).indent

theorem head_entries {es : List (String × String)} (hes : ∀ e ∈ es, Faithful e) {rest : List Char}
    (hrest : rest.head?.any isIndent = false) : (es.flatMap writeEntry ++ rest).head?.any isIndent = false := by
  cases es with
  | nil => exact hrest
  | cons e es =>
    rw [List.flatMap_cons, writeEntry]
    simp only [List.append_assoc]
    exact head_label (hes e List.mem_cons_self).key _

theorem readLines_entry {e : String × String} (he : Faithful e) {rest : List Char}
    (hrest : rest.head?.any isIndent = false) (sections : List Section) :
    readLines (writeEntry e ++ rest) sections = readLines rest (addEntry e.1 e.2.toList sections) := by
  have hline : writeEntry e ++ rest = e.1.toList ++ '=' :: (escape e.2.toList ++ '\n' :: rest) := by
    simp [writeEntry]
  rw [hline, readLines_key he.key, readValue_verbatim he.value, Option.bind_some, skipBlanks_line hrest, readLines]

theorem readLines_last {k : String} (hk : Label k) {v : String} (hv : Text.Tidy v.toList) (sections : List Section) :
    readLines (writeEntry (k, v)) sections =
      (readValue (escape v.toList ++ ['\n'])).text.map fun text => addEntry k text sections := by
  have hline : writeEntry (k, v) = k.toList ++ '=' :: (escape v.toList ++ ['\n']) := by simp [writeEntry]
  rw [hline, readLines_key hk]
  cases ht : (readValue (escape v.toList ++ ['\n'])).text with
  | none => rfl
  | some text =>
    rw [readValue_escape hv] at ht ⊢
    rw [Option.bind_some, (readPieces_quoted ht).1, skipBlanks_line (by rfl), skipBlanks, readItems]
    rfl

theorem readLines_entries {es : List (String × String)} (hes : ∀ e ∈ es, Faithful e) {rest : List Char}
    (hrest : rest.head?.any isIndent = false) (name : Option String) (before : List (String × String))
    (sections : List Section) :
    readLines (es.flatMap writeEntry ++ rest) (⟨name, before⟩ :: sections) =
      readLines rest (⟨name, before ++ es⟩ :: sections) := by
  induction es generalizing before with
  | nil => rw [List.append_nil]; rfl
  | cons e es ih =>
    have hlater : ∀ d ∈ es, Faithful d := fun d hd => hes d (List.mem_cons_of_mem _ hd)
    rw [List.flatMap_cons, List.append_assoc,
      readLines_entry (hes e List.mem_cons_self) (head_entries hlater hrest), addEntry, ih hlater]
    simp

theorem writeSection_append {name : String} {es : List (String × String)} {rest : List Char} :
    writeSection name es ++ rest = '[' :: (name.toList ++ ']' :: '\n' :: (es.flatMap writeEntry ++ rest)) := by
  simp [writeSection]

theorem readLines_section {name : String} (hname : Label name) {es : List (String × String)}
    (hes : ∀ e ∈ es, Faithful e) {rest : List Char} (hrest : rest.head?.any isIndent = false)
    (sections : List Section) :
    readLines (writeSection name es ++ rest) sections = readLines rest (⟨some name, es⟩ :: sections) := by
  rw [writeSection_append, readLines_name hname (head_entries hes hrest), readLines_entries hes hrest]
  rfl

theorem write_eq_cons {sections : List (String × List (String × String))} (h : sections ≠ []) :
    ∃ tail, List.intercalate ['\n'] (sections.map fun s => writeSection s.1 s.2) = '[' :: tail := by
  obtain ⟨s, rest, rfl⟩ := List.exists_cons_of_ne_nil h
  cases rest with
  | nil => exact ⟨_, List.intercalate_singleton⟩
  | cons t rest => exact ⟨_, List.intercalate_cons_of_ne_nil (List.cons_ne_nil _ _)⟩

section Write

variable {before : List (String × List (String × String))} {name k v : String} {es : List (String × String)}
  (hbefore : ∀ s ∈ before, Label s.1 ∧ ∀ e ∈ s.2, Faithful e) (hname : Label name) (hes : ∀ e ∈ es, Faithful e)
  (hk : Label k) (hv : Text.Tidy v.toList)
include hbefore hname hes hk hv

/-- The lines of some sections, an empty line between two of them; only the last value need not be faithful. -/
theorem readLines_sections (sections : List Section) :
    readLines (List.intercalate ['\n'] ((before ++ [(name, es ++ [(k, v)])]).map fun s => writeSection s.1 s.2))
        sections =
      (readValue (escape v.toList ++ ['\n'])).text.map fun text =>
        ⟨some name, es ++ [(k, String.ofList text)]⟩ ::
          ((before.map fun s => ⟨some s.1, s.2⟩).reverse ++ sections) := by
  induction before generalizing sections with
  | nil =>
    have hlast : (writeEntry (k, v)).head?.any isIndent = false := by
      simpa [writeEntry] using head_label hk ('=' :: (escape v.toList ++ ['\n']))
    have hwrite : writeSection name (es ++ [(k, v)]) = writeSection name es ++ writeEntry (k, v) := by
      simp [writeSection]
    rw [List.nil_append, List.map_singleton, List.intercalate_singleton, hwrite,
      readLines_section hname hes hlast, readLines_last hk hv]
    rfl
  | cons s before ih =>
    obtain ⟨hlabel, hfaithful⟩ := hbefore s List.mem_cons_self
    have hne : before ++ [(name, es ++ [(k, v)])] ≠ [] := by simp
    obtain ⟨tail, hopen⟩ := write_eq_cons hne
    have hrest := ih (fun t ht => hbefore t (List.mem_cons_of_mem _ ht)) (⟨some s.1, s.2⟩ :: sections)
    rw [hopen] at hrest
    rw [List.cons_append, List.map_cons, List.intercalate_cons_of_ne_nil (by simp), hopen, List.append_assoc,
      readLines_section hlabel hfaithful (by rfl), List.singleton_append, readLines_empty (by rfl), hrest]
    simp

/-- Faithful sections are read back, and then the last value of the last one, whatever that says. -/
theorem parse_write :
    parse (write (before ++ [(name, es ++ [(k, v)])])) =
      (readValue (escape v.toList ++ ['\n'])).text.map fun text =>
        (before.map fun s => ⟨some s.1, s.2⟩) ++ [⟨some name, es ++ [(k, String.ofList text)]⟩] := by
  obtain ⟨tail, hopen⟩ := write_eq_cons (show before ++ [(name, es ++ [(k, v)])] ≠ [] by simp)
  have hlines := readLines_sections hbefore hname hes hk hv []
  rw [hopen, readLines, skipBlanks_start (by decide)] at hlines
  -- no mark stands in front of the bracket
  have hmark : '[' ≠ byteOrderMark := by decide
  rw [parse, write, hopen, String.toList_ofList]
  simp only [List.head?_cons, Option.some.injEq, hmark, if_false, hlines, Option.map_map]
  congr 1
  funext text
  simp

end Write

end FileSwarm.Ini
