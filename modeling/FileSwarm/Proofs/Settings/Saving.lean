import Mathlib
import FileSwarm.Proofs.Disk.Paths
import FileSwarm.Proofs.Settings.Ini
import FileSwarm.Proofs.Settings.Keys

/-!
# What a settings file keeps

* `parse_toIni` : the stored text holds the sections that were written, up to the name of the log file;
* `Storable`, `load_stored` : where settings can be stored as a file, and what is loaded from there then;
* `Kept` : the settings that come back; `load_of_kept`, `kept_of_same`;
* `save_load` : whatever was changed, saved settings are loaded again just if they are of those.
-/

namespace FileSwarm

namespace Settings

/-! ## The text of settings -/

theorem label_ownName (k : Key) : Ini.Label k.ownName :=
  ⟨by cases k <;> decide, by cases k <;> simp [Key.ownName]⟩

theorem verbatim_get (s : Settings) {k : Key} (hk : k ≠ .logFile) : Ini.Verbatim (k.get s).toList := by
  have hdigit : ∀ c : Char, c.isDigit = true → Text.isBlank c = false ∧ Ini.isQuote c = false := by
    intro c hc
    refine ⟨Text.isBlank_of_isDigit hc, ?_⟩
    rw [Bool.eq_false_iff]
    intro hq
    rcases by simpa [Ini.isQuote] using hq with rfl | rfl <;> exact absurd hc (by decide)
  have hnumber : ∀ n : Nat, ∀ c ∈ (toString n).toList, Text.isBlank c = false ∧ Ini.isQuote c = false :=
    fun n c hc => hdigit c (Text.isDigit_of_mem_toString hc)
  apply Ini.Verbatim.of_forall
  cases k with
  | logFile => exact absurd rfl hk
  | blockLength =>
    cases hb : s.tuning.blockLength with
    | none => simp [Key.get, hb]
    | some n => simpa only [Key.get, hb, Option.map_some, Option.getD_some] using hnumber n
  | selection => simp only [Key.get]; cases s.tuning.selection <;> simp [Selection.name] <;> decide
  | logLevel => simp only [Key.get]; cases s.level <;> simp [LogLevel.name] <;> decide
  | _ => exact hnumber _

theorem tidy_logFile {s : Settings} (hs : Sound s) : Text.Tidy (Key.logFile.get s).toList :=
  Text.trim_eq_self.1 (trim_get hs .logFile)

/-- What is read as the name of the log file. -/
def reread (s : Settings) : Option (List Char) :=
  (Ini.readValue (Ini.escape (Key.logFile.get s).toList ++ ['\n'])).text

theorem parse_toIni {s : Settings} (hs : Sound s) :
    Ini.parse s.toIni = s.reread.map fun text => s.sections (String.ofList text) := by
  have htransfer : ∀ e ∈ s.entries "transfer", Ini.Faithful e := by
    intro e he
    obtain ⟨k, hk, rfl⟩ := List.mem_map.1 he
    have hother : k ≠ .logFile := by rintro rfl; simp [Key.sectionName] at hk
    exact ⟨label_ownName k, verbatim_get s hother⟩
  have hlabel : Ini.Label "transfer" ∧ Ini.Label "logging" := ⟨⟨by decide, by simp⟩, ⟨by decide, by simp⟩⟩
  have hbefore : ∀ t ∈ [("transfer", s.entries "transfer")], Ini.Label t.1 ∧ ∀ e ∈ t.2, Ini.Faithful e := by
    intro t ht
    rw [List.mem_singleton.1 ht]
    exact ⟨hlabel.1, htransfer⟩
  have hlevel : ∀ e ∈ [(Key.logLevel.ownName, Key.logLevel.get s)], Ini.Faithful e := by
    intro e he
    rw [List.mem_singleton.1 he]
    exact ⟨label_ownName .logLevel, verbatim_get s (by decide)⟩
  have hlogging : s.entries "logging" =
      [(Key.logLevel.ownName, Key.logLevel.get s)] ++ [(Key.logFile.ownName, Key.logFile.get s)] := rfl
  have hread := Ini.parse_write hbefore hlabel.2 hlevel (label_ownName .logFile) (tidy_logFile hs)
  rw [toIni, sectionNames, List.map_cons, List.map_singleton, hlogging]
  exact hread

/-! ## Settings in a file -/

theorem fromUTF8?_toUTF8 (text : String) : String.fromUTF8? text.toUTF8 = some text :=
  dif_pos text.isValidUTF8

/-- The disk with the directories made that a path goes through. -/
def prepare (d : Disk) (path : String) : Except Cause Unit × Disk :=
  match Path.parent? path with
  | some parent => d.makeDirectories parent
  | none => (.ok (), d)

/-- Whether a file can be written under a path, once its directories are made. -/
def Storable (d : Disk) (path : String) : Prop :=
  ∃ made opened h, prepare d path = (.ok (), made) ∧ made.openFresh path = .ok (opened, h) ∧
    (opened.bytesAt? h.node).isSome

/-- Where a file can be written, saving succeeds, and the path leads to a file with the text. -/
theorem save_storable {d : Disk} {path : String} (hd : Storable d path) (s : Settings) :
    ∃ e k, s.save d path = (.ok (), e) ∧ e.HasFile path k s.toIni.toUTF8 := by
  obtain ⟨made, opened, h, hmade, hopen, hfile⟩ := hd
  obtain ⟨old, hold⟩ := Option.isSome_iff_exists.1 hfile
  obtain ⟨stamp, hnode⟩ := Disk.bytesAt?_eq_some.1 hold
  obtain ⟨halike, hbytes⟩ := Disk.alike_putFile hnode s.toIni.toUTF8 none
  refine ⟨_, h.node, ?_, (Disk.openFresh_eq_ok hopen).1.alike halike, hbytes⟩
  have hwrite : made.write path s.toIni.toUTF8 =
      .ok { opened with nodes := opened.nodes.setIfInBounds h.node (.file s.toIni.toUTF8 none) } := by
    simp only [Disk.write, hopen, bind, Except.bind, hnode, pure, Except.pure]
  unfold prepare at hmade
  cases hparent : Path.parent? path with
  | none =>
    rw [hparent] at hmade
    have hsame : d = made := (Prod.mk.inj hmade).2
    simp only [save, hparent, hsame, Disk.attempt, hwrite]
    rfl
  | some parent =>
    rw [hparent] at hmade
    have hdirectories : d.makeDirectories parent = (.ok (), made) := hmade
    simp only [save, hparent, hdirectories, Disk.attempt, hwrite]
    rfl

theorem load_saved {d : Disk} {path : String} {k : Nat} {s : Settings} (hs : Sound s)
    (hf : d.HasFile path k s.toIni.toUTF8) :
    load d path = match s.reread with
      | none => .error (.malformed path)
      | some text => ofSections (s.sections (String.ofList text)) := by
  have hnode : (d.node? path).isNone = false := by
    have hfile := hf.isFile_eq
    unfold Disk.isFile at hfile
    cases hn : d.node? path with
    | none => rw [hn] at hfile; exact nomatch hfile
    | some x => rfl
  have hread : d.read path = .ok s.toIni.toUTF8 := by rw [hf.leads.read, hf.content]
  rw [load, hnode, hread]
  simp only [ofBytes, fromUTF8?_toUTF8, parse_toIni hs, Bool.false_eq_true, if_false]
  cases s.reread <;> rfl

/-! ## The settings that come back -/

/-- A block length within the limit, and a log file whose name neither starts with a quote nor has a vertical tab or
a form feed in it. -/
structure Kept (s : Settings) : Prop where
  blockLength : ∀ n ∈ s.tuning.blockLength, n ≤ Signature.maxBlockLength
  quote : ∀ f ∈ s.logFile, ∀ c ∈ f.toList.head?, c ≠ '\x22' ∧ c ≠ '\x27'
  control : ∀ f ∈ s.logFile, ∀ c ∈ f.toList, c.toNat ≠ 11 ∧ c.toNat ≠ 12

theorem not_longBlock {s : Settings} : ¬LongBlock s ↔ ∀ n ∈ s.tuning.blockLength, n ≤ Signature.maxBlockLength := by
  simp only [LongBlock, not_exists, not_and, Nat.not_lt]

theorem get_logFile {s : Settings} {f : String} (hf : f ∈ s.logFile) : Key.logFile.get s = f := by
  rw [Key.get, Option.mem_def.1 hf, Option.getD_some]

theorem isQuote_eq_false {c : Char} : Ini.isQuote c = false ↔ c ≠ '\x22' ∧ c ≠ '\x27' := by
  simp [Ini.isQuote]

theorem Kept.verbatim {s : Settings} (hs : Sound s) (hk : Kept s) : Ini.Verbatim (Key.logFile.get s).toList := by
  cases hf : s.logFile with
  | none =>
    have hempty : Key.logFile.get s = "" := by rw [Key.get, hf, Option.getD_none]
    rw [hempty]
    exact .of_forall (by simp)
  | some f =>
    have htidy := tidy_logFile hs
    rw [get_logFile hf] at htidy ⊢
    exact ⟨htidy, fun c hc => isQuote_eq_false.2 (hk.quote f hf c hc),
      fun c hc => Ini.soften_eq_self.2 (hk.control f hf c hc).symm⟩

theorem fileOf_get {s : Settings} (hs : Sound s) : fileOf (Key.logFile.get s) = s.logFile := by
  have hset := set_get hs (k := .logFile) (fun h => nomatch h) s
  rw [set_logFile] at hset
  simpa only [copy, Except.ok.injEq, Settings.mk.injEq, true_and] using hset

theorem load_of_kept {d : Disk} {path : String} {k : Nat} {s : Settings} (hs : Sound s) (hk : Kept s)
    (hf : d.HasFile path k s.toIni.toUTF8) : load d path = .ok s := by
  have hread : s.reread = some (Key.logFile.get s).toList := by
    rw [reread, Ini.readValue_verbatim (hk.verbatim hs)]
  rw [load_saved hs hf, hread]
  simp only [String.ofList_toList, ofSections_sections hs (not_longBlock.2 hk.blockLength), fileOf_get hs]

/-- What else is loaded has lost the log file, or some of its name. -/
theorem load_eq_ok {d : Disk} {path : String} {k : Nat} {s l : Settings} (hs : Sound s)
    (hf : d.HasFile path k s.toIni.toUTF8) (hl : load d path = .ok l) :
    ¬LongBlock s ∧ ∃ text, s.reread = some text ∧ l = { s with logFile := fileOf (String.ofList text) } := by
  rw [load_saved hs hf] at hl
  cases hread : s.reread with
  | none => rw [hread] at hl; exact nomatch hl
  | some text =>
    rw [hread] at hl
    by_cases hlong : LongBlock s
    · simp only [ofSections_longBlock hs hlong] at hl
      exact nomatch hl
    · simp only [ofSections_sections hs hlong] at hl
      exact ⟨hlong, text, rfl, (Except.ok.inj hl).symm⟩

theorem count_le_of_same {s : Settings} {text : List Char} {f : String} (hf : f ∈ s.logFile)
    (hsame : same { s with logFile := fileOf (String.ofList text) } s = true) {c : Char} (hslash : c ≠ '/')
    (hdot : c ≠ '.') : f.toList.count c ≤ text.count c := by
  simp only [same, Option.mem_def.1 hf, fileOf, Bool.and_eq_true] at hsame
  obtain ⟨-, hpath⟩ := hsame
  split at hpath
  · next x y hx hy =>
    split at hx
    · exact nomatch hx
    · rw [← Option.some.inj hx, ← Option.some.inj hy] at hpath
      rw [← Path.count_eq_of_same hpath hslash hdot, Text.trim, String.toList_ofList, String.toList_ofList]
      exact (Text.trimChars_sublist text).count_le c
  · exact absurd hpath (by split <;> simp_all)

/-- Of a name that starts with a quote, one quote more is lost than of others. -/
theorem count_reread_lt {s : Settings} (hs : Sound s) {text : List Char} (hread : s.reread = some text) {q : Char}
    (hq : Ini.isQuote q = true) (hhead : q ∈ (Key.logFile.get s).toList.head?) :
    text.count q < (Key.logFile.get s).toList.count q := by
  rw [reread, Ini.readValue_escape (tidy_logFile hs)] at hread
  simpa using ((Ini.readPieces_quoted hread).2 q hq).2 hhead

theorem reread_eq {s : Settings} (hs : Sound s) (hquote : Ini.Unquoted (Key.logFile.get s).toList) :
    s.reread = some ((Key.logFile.get s).toList.map Ini.soften) := by
  have htidy := tidy_logFile hs
  rw [reread, Ini.readValue_escape htidy, Ini.readPieces_escape hquote, if_pos rfl,
    Text.trimChars_eq_self.2 (Ini.tidy_map_soften htidy)]
  rfl

theorem kept_of_same {d : Disk} {path : String} {k : Nat} {s l : Settings} (hs : Sound s)
    (hf : d.HasFile path k s.toIni.toUTF8) (hl : load d path = .ok l) (hsame : l.same s = true) : Kept s := by
  obtain ⟨hshort, text, hread, rfl⟩ := load_eq_ok hs hf hl
  have hquote : ∀ f ∈ s.logFile, Ini.Unquoted f.toList := by
    intro f hfile q hhead
    by_contra hq
    rw [Bool.not_eq_false] at hq
    have hmarks : q ≠ '/' ∧ q ≠ '.' := by
      rcases by simpa [Ini.isQuote] using hq with rfl | rfl <;> decide
    have hlt := count_reread_lt hs hread hq (by rwa [get_logFile hfile])
    rw [get_logFile hfile] at hlt
    exact absurd (count_le_of_same hfile hsame hmarks.1 hmarks.2) (Nat.not_le.2 hlt)
  refine ⟨not_longBlock.1 hshort, fun f hfile c hc => isQuote_eq_false.1 (hquote f hfile c hc), fun f hfile c hc => ?_⟩
  by_contra hcode
  have hsoft : ∀ x, Ini.soften x ≠ c := by
    intro x hx
    have hcodes := Ini.soften_eq_self.1 (Ini.soften_soften x)
    rw [hx] at hcodes
    exact hcode hcodes.symm
  have hmarks : c ≠ '/' ∧ c ≠ '.' := by
    constructor <;> rintro rfl <;> exact hcode (by decide)
  rw [reread_eq hs (by rw [get_logFile hfile]; exact hquote f hfile), get_logFile hfile] at hread
  have hnone : text.count c = 0 := by
    rw [← Option.some.inj hread, List.count_eq_zero]
    simpa using fun x _ => hsoft x
  have hle := count_le_of_same hfile hsame hmarks.1 hmarks.2
  exact absurd (List.count_pos_iff.2 hc) (by omega)

/-! ## A file `c.ini` in an empty directory -/

theorem split_name : Path.split "c.ini" = ["c.ini"] := by
  rw [Path.split_eq, List.splitOnP_eq_singleton (by simp)]
  rfl

theorem place_name : (Disk.empty []).place "c.ini" = .ok ["c.ini"] := by
  have hsteps : Path.steps "c.ini" = ["c.ini"] := by
    rw [Path.steps, split_name]
    decide +kernel
  have hnul : "c.ini".contains (Char.ofNat 0) = false := by
    rw [String.contains_char_eq]
    decide +kernel
  rw [Disk.place, Disk.walk, hnul, hsteps]
  decide +kernel

theorem storable_name : Storable (Disk.empty []) "c.ini" := by
  have hparent : Path.parent? "c.ini" = some "" := by
    rw [Path.parent?, split_name]
    decide +kernel
  have hprepare : prepare (Disk.empty []) "c.ini" = (.ok (), Disk.empty []) := by
    rw [prepare, hparent]
    rfl
  have hslash : Path.endsInSlash "c.ini" = false := by decide +kernel
  have hopen : (Disk.empty []).openFresh "c.ini" =
      .ok (((Disk.empty []).add ["c.ini"] (.file ByteArray.empty none)).1, ⟨1, true⟩) := by
    simp only [Disk.openFresh, hslash, place_name, bind, Except.bind]
    rfl
  exact ⟨_, _, _, hprepare, hopen, rfl⟩

/-! ## Saving and loading -/

/-- Whatever was changed, settings that were saved are loaded again, unless the block length is one that only a
`with...` function admits, or the log file has a name that the file's text does not carry: then the loading fails, or
the log file is another one. -/
theorem save_load {d : Disk} {path : String} (hd : Storable d path) (changes : List Change) :
    ∃ e, (after changes).save d path = (.ok (), e) ∧
      ((after changes).Kept → load e path = .ok (after changes)) ∧
      ∀ l, load e path = .ok l → l.tuning = (after changes).tuning ∧ l.level = (after changes).level ∧
        (l.same (after changes) = true → (after changes).Kept) := by
  have hs := sound_after changes
  obtain ⟨e, k, hsave, hf⟩ := save_storable hd (after changes)
  refine ⟨e, hsave, fun hk => load_of_kept hs hk hf, fun l hl => ?_⟩
  obtain ⟨-, text, -, hl'⟩ := load_eq_ok hs hf hl
  exact ⟨by rw [hl'], by rw [hl'], kept_of_same hs hf hl⟩

/-- Some numbers, and a log file with a blank in front of its name. -/
def retuning : List Change := [.maxChunk 65536, .blockLength 2048, .selection .roundRobin, .key .logFile " a.log"]

theorem retuning_kept : Storable (Disk.empty []) "c.ini" ∧
    ∃ e, (after retuning).save (Disk.empty []) "c.ini" = (.ok (), e) ∧ load e "c.ini" = .ok (after retuning) := by
  obtain ⟨e, hsave, hload, -⟩ := save_load storable_name retuning
  have hafter : after retuning =
      ⟨{ Tuning.standard with maxChunk := 65536, blockLength := some 2048, selection := .roundRobin }, .info,
        some "a.log"⟩ := rfl
  refine ⟨storable_name, e, hsave, hload ?_⟩
  rw [hafter]
  refine ⟨?_, ?_, ?_⟩
  · rintro _ ⟨⟩
    decide
  · rintro _ ⟨⟩
    simp
  · rintro _ ⟨⟩
    simp

/-- The quotes around the name of a log file are lost. -/
theorem quotes_lost : ¬∀ (changes : List Change) (d : Disk) (path : String), Storable d path →
    ∃ e l, (after changes).save d path = (.ok (), e) ∧ load e path = .ok l ∧ l.same (after changes) = true := by
  intro h
  obtain ⟨e, l, hsave, hload, hsame⟩ := h [.key .logFile "\x22a\x22"] (Disk.empty []) "c.ini" storable_name
  obtain ⟨e', k, hsave', hf⟩ := save_storable storable_name (after [.key .logFile "\x22a\x22"])
  rw [hsave] at hsave'
  obtain rfl := (Prod.mk.inj hsave').2
  have hkept := kept_of_same (sound_after _) hf hload hsame
  have hfile : (after [.key .logFile "\x22a\x22"]).logFile = some "\x22a\x22" := rfl
  exact (hkept.quote _ hfile '\x22' (by simp)).1 rfl

end Settings

end FileSwarm
