import Mathlib
import FileSwarm.Proofs.Text
import FileSwarm.Settings.File

/-!
# What can be set, and what its text sets again

* `Sound` : the bounds of settings; `Change`, `after` : the settings that come about from the standard ones by changes,
  and `sound_after` : they are within the bounds;
* `copy`, `set_get` : the text of a value sets that value, except a block length that only the `with...` functions admit
  (`set_longBlock`);
* `sections`, `ofSections_sections` : all texts together set all values.
-/

namespace FileSwarm

namespace Key

/-! ## Values within their bounds -/

theorem bind_eq_ok {α β ε : Type} {x : Except ε α} {f : α → Except ε β} {b : β} (h : (x >>= f) = .ok b) :
    ∃ a, x = .ok a ∧ f a = .ok b := by
  cases x with
  | error e => exact nomatch h
  | ok a => exact ⟨a, rfl, h⟩

theorem readNumber_le {value : String} {n : Nat} (h : readNumber value = .ok n) : n ≤ maxOffset := by
  unfold readNumber at h
  cases hr : Text.readNumber maxOffset value with
  | error e => rw [hr] at h; exact nomatch h
  | ok m =>
    rw [hr] at h
    exact Except.ok.inj h ▸ Text.readNumber_le hr

theorem readPositive_bounds {value : String} {n : Nat} (h : readPositive value = .ok n) : 1 ≤ n ∧ n ≤ maxOffset := by
  obtain ⟨m, hm, hn⟩ := bind_eq_ok h
  split at hn
  · exact nomatch hn
  · next hz => exact Except.ok.inj hn ▸ ⟨Nat.one_le_iff_ne_zero.2 hz, readNumber_le hm⟩

theorem readNumber_toString {n : Nat} (h : n ≤ maxOffset) : readNumber (toString n) = .ok n := by
  rw [readNumber, Text.readNumber_toString h]
  rfl

theorem readPositive_toString {n : Nat} (hpos : 1 ≤ n) (h : n ≤ maxOffset) : readPositive (toString n) = .ok n := by
  rw [readPositive, readNumber_toString h]
  exact if_neg (Nat.one_le_iff_ne_zero.1 hpos)

end Key

namespace Settings

/-- The bounds of what can be set. -/
structure Sound (s : Settings) : Prop where
  maxChunk : 1 ≤ s.tuning.maxChunk ∧ s.tuning.maxChunk ≤ maxOffset
  minDelta : s.tuning.minDelta ≤ maxOffset
  maxRequests : 1 ≤ s.tuning.maxRequests ∧ s.tuning.maxRequests ≤ maxOffset
  blockLength : ∀ n ∈ s.tuning.blockLength, 1 ≤ n ∧ n ≤ maxOffset
  maxMismatches : 1 ≤ s.tuning.maxMismatches ∧ s.tuning.maxMismatches ≤ Key.mismatchLimit
  workers : s.tuning.workers ≤ maxOffset
  logFile : ∀ f ∈ s.logFile, f ≠ "" ∧ Text.Tidy f.toList

/-- A change of settings: a call of a `with...` function, or a text as the value of a key. -/
inductive Change where
  | maxChunk (n : UInt64)
  | minDelta (n : UInt64)
  | maxRequests (n : UInt64)
  | blockLength (n : UInt64)
  | selection (selection : Selection)
  | maxMismatches (n : UInt32)
  | workers (n : UInt64)
  | key (k : Key) (text : String)

/-- The settings after a change; a text that is no value changes nothing. -/
def change (s : Settings) : Change → Settings
  | .maxChunk n => { s with tuning := s.tuning.withMaxChunk n.toNat }
  | .minDelta n => { s with tuning := s.tuning.withMinDelta n.toNat }
  | .maxRequests n => { s with tuning := s.tuning.withMaxRequests n.toNat }
  | .blockLength n => { s with tuning := s.tuning.withBlockLength n.toNat }
  | .selection selection => { s with tuning := s.tuning.withSelection selection }
  | .maxMismatches n => { s with tuning := s.tuning.withMaxMismatches n.toNat }
  | .workers n => { s with tuning := s.tuning.withWorkers n.toNat }
  | .key k text => (k.set s text).toOption.getD s

/-- The settings that changes of the standard ones lead to. -/
def after (changes : List Change) : Settings := changes.foldl change standard

theorem sound_standard : Sound standard where
  maxChunk := by decide
  minDelta := by decide
  maxRequests := by decide
  blockLength := by simp [standard, Tuning.standard]
  maxMismatches := by decide
  workers := by decide
  logFile := by simp [standard]

theorem sound_store {s t : Settings} (hs : Sound s) {k : Key} {value : String} (hvalue : Text.Tidy value.toList)
    (h : k.store s value = .ok t) : Sound t := by
  cases k with
  | maxChunk =>
    obtain ⟨n, hn, ht⟩ := Key.bind_eq_ok h
    exact Except.ok.inj ht ▸ { hs with maxChunk := Key.readPositive_bounds hn }
  | minDelta =>
    obtain ⟨n, hn, ht⟩ := Key.bind_eq_ok h
    exact Except.ok.inj ht ▸ { hs with minDelta := Key.readNumber_le hn }
  | maxRequests =>
    obtain ⟨n, hn, ht⟩ := Key.bind_eq_ok h
    exact Except.ok.inj ht ▸ { hs with maxRequests := Key.readPositive_bounds hn }
  | blockLength =>
    unfold Key.store at h
    dsimp only at h
    split at h
    · exact Except.ok.inj h ▸ { hs with blockLength := by simp }
    · obtain ⟨n, hn, ht⟩ := Key.bind_eq_ok h
      split at ht
      · exact nomatch ht
      · rw [← Except.ok.inj ht]
        refine { hs with blockLength := ?_ }
        rintro _ ⟨⟩
        exact Key.readPositive_bounds hn
  | selection =>
    obtain ⟨selection, -, ht⟩ := Key.bind_eq_ok h
    exact Except.ok.inj ht ▸ { hs with }
  | maxMismatches =>
    obtain ⟨n, hn, ht⟩ := Key.bind_eq_ok h
    split at ht
    · exact nomatch ht
    · next hle =>
      exact Except.ok.inj ht ▸ { hs with maxMismatches := ⟨(Key.readPositive_bounds hn).1, Nat.le_of_not_lt hle⟩ }
  | workers =>
    obtain ⟨n, hn, ht⟩ := Key.bind_eq_ok h
    exact Except.ok.inj ht ▸ { hs with workers := Key.readNumber_le hn }
  | logLevel =>
    unfold Key.store at h
    dsimp only at h
    split at h
    · exact Except.ok.inj h ▸ { hs with }
    · exact nomatch h
  | logFile =>
    rw [← Except.ok.inj h]
    refine { hs with logFile := fun f hf => ?_ }
    dsimp only at hf
    split at hf
    · exact nomatch hf
    · next hne => exact Option.some.inj hf ▸ ⟨hne, hvalue⟩

theorem store_of_set {s t : Settings} {k : Key} {text : String} (h : k.set s text = .ok t) :
    k.store s (Text.trim text) = .ok t := by
  unfold Key.set at h
  dsimp only at h
  cases hr : k.store s (Text.trim text) with
  | error e => rw [hr] at h; exact nomatch h
  | ok u => rw [hr] at h; exact congrArg Except.ok (Except.ok.inj h)

theorem sound_set {s t : Settings} (hs : Sound s) {k : Key} {text : String} (h : k.set s text = .ok t) : Sound t :=
  sound_store hs (Text.tidy_trim text) (store_of_set h)

theorem sound_change {s : Settings} (hs : Sound s) (c : Change) : Sound (s.change c) := by
  have h64 : ∀ n : UInt64, n.toNat ≤ maxOffset := fun n => Nat.le_of_lt_succ n.toNat_lt
  have h32 : ∀ n : UInt32, n.toNat ≤ Key.mismatchLimit := fun n => Nat.le_of_lt_succ n.toNat_lt
  cases c with
  | maxChunk n => exact { hs with maxChunk := ⟨le_max_right .., max_le (h64 n) (by decide)⟩ }
  | minDelta n => exact { hs with minDelta := h64 n }
  | maxRequests n => exact { hs with maxRequests := ⟨le_max_right .., max_le (h64 n) (by decide)⟩ }
  | blockLength n =>
    refine { hs with blockLength := ?_ }
    rintro _ ⟨⟩
    exact ⟨le_max_right .., max_le (h64 n) (by decide)⟩
  | selection selection => exact { hs with }
  | maxMismatches n => exact { hs with maxMismatches := ⟨le_max_right .., max_le (h32 n) (by decide)⟩ }
  | workers n => exact { hs with workers := h64 n }
  | key k text =>
    rw [change]
    cases hr : k.set s text with
    | error e => exact hs
    | ok t => exact sound_set hs hr

theorem sound_after (changes : List Change) : Sound (after changes) := by
  induction changes using List.reverseRecOn with
  | nil => exact sound_standard
  | append_singleton changes c ih =>
    rw [after, List.foldl_append]
    exact sound_change ih c

/-! ## Texts that set what they were got from -/

/-- A block length that is no value for its key. -/
def LongBlock (s : Settings) : Prop := ∃ n ∈ s.tuning.blockLength, Signature.maxBlockLength < n

/-- The settings `t` with the value that `s` has for a key. -/
def copy (k : Key) (s t : Settings) : Settings :=
  match k with
  | .maxChunk => { t with tuning.maxChunk := s.tuning.maxChunk }
  | .minDelta => { t with tuning.minDelta := s.tuning.minDelta }
  | .maxRequests => { t with tuning.maxRequests := s.tuning.maxRequests }
  | .blockLength => { t with tuning.blockLength := s.tuning.blockLength }
  | .selection => { t with tuning.selection := s.tuning.selection }
  | .maxMismatches => { t with tuning.maxMismatches := s.tuning.maxMismatches }
  | .workers => { t with tuning.workers := s.tuning.workers }
  | .logLevel => { t with level := s.level }
  | .logFile => { t with logFile := s.logFile }

theorem ofName_name (selection : Selection) : Selection.ofName selection.name = .ok selection := by
  have htrim : Text.trim selection.name = selection.name := by cases selection <;> rfl
  have hlower : Text.lower selection.name = selection.name :=
    Text.lower_eq_self (by cases selection <;> simp [Selection.name])
  rw [Selection.ofName, htrim, hlower]
  cases selection <;> rfl

theorem ofName?_name (level : LogLevel) : LogLevel.ofName? (Text.lower level.name) = some level := by
  rw [Text.lower_eq_self (by cases level <;> simp [LogLevel.name])]
  cases level <;> decide

theorem trim_get {s : Settings} (hs : Sound s) (k : Key) : Text.trim (k.get s) = k.get s := by
  cases k with
  | blockLength =>
    cases h : s.tuning.blockLength with
    | none => simp [Key.get, h]; rfl
    | some n => simp only [Key.get, h]; exact Text.trim_toString n
  | selection => simp only [Key.get]; cases s.tuning.selection <;> rfl
  | logLevel => simp only [Key.get]; cases s.level <;> rfl
  | logFile =>
    cases h : s.logFile with
    | none => simp [Key.get, h]; rfl
    | some f => simp only [Key.get, h]; exact Text.trim_eq_self.2 (hs.logFile f h).2
  | _ => exact Text.trim_toString _

/-- Each value's text sets that value, and nothing else. -/
theorem set_get {s : Settings} (hs : Sound s) {k : Key} (hk : k = .blockLength → ¬LongBlock s) (t : Settings) :
    k.set t (k.get s) = .ok (copy k s t) := by
  suffices hstore : k.store t (k.get s) = .ok (copy k s t) by
    rw [Key.set, trim_get hs, hstore]
    rfl
  cases k with
  | maxChunk => simp only [Key.store, Key.get, Key.readPositive_toString hs.maxChunk.1 hs.maxChunk.2]; rfl
  | minDelta => simp only [Key.store, Key.get, Key.readNumber_toString hs.minDelta]; rfl
  | maxRequests => simp only [Key.store, Key.get, Key.readPositive_toString hs.maxRequests.1 hs.maxRequests.2]; rfl
  | blockLength =>
    cases hb : s.tuning.blockLength with
    | none => simp only [Key.store, Key.get, copy, hb]; rfl
    | some n =>
      obtain ⟨hpos, hle⟩ := hs.blockLength n hb
      have hshort : ¬Signature.maxBlockLength < n := fun hlong => hk rfl ⟨n, hb, hlong⟩
      have hne : toString n ≠ "" := Nat.repr_ne_empty
      simp only [Key.store, Key.get, copy, hb, Option.map_some, Option.getD_some, hne, if_false,
        Key.readPositive_toString hpos hle]
      exact if_neg hshort
  | selection => simp only [Key.store, Key.get, ofName_name]; rfl
  | maxMismatches =>
    have hle := Nat.le_trans hs.maxMismatches.2 (show Key.mismatchLimit ≤ maxOffset by decide)
    simp only [Key.store, Key.get, Key.readPositive_toString hs.maxMismatches.1 hle]
    exact if_neg (Nat.not_lt.2 hs.maxMismatches.2)
  | workers => simp only [Key.store, Key.get, Key.readNumber_toString hs.workers]; rfl
  | logLevel => simp only [Key.store, Key.get, ofName?_name]; rfl
  | logFile =>
    cases hf : s.logFile with
    | none => simp only [Key.store, Key.get, copy, hf]; rfl
    | some f => simp only [Key.store, Key.get, copy, hf, Option.getD_some, (hs.logFile f hf).1, if_false]

theorem set_longBlock {s : Settings} (hs : Sound s) (hlong : LongBlock s) (t : Settings) :
    Key.blockLength.set t (Key.blockLength.get s) =
      .error (.invalidValue .blockLength (Key.blockLength.get s) .longBlock) := by
  obtain ⟨n, hb, hlong⟩ := hlong
  obtain ⟨hpos, hle⟩ := hs.blockLength n hb
  have hne : toString n ≠ "" := Nat.repr_ne_empty
  have hstore : Key.blockLength.store t (Key.blockLength.get s) = .error .longBlock := by
    simp only [Key.store, Key.get, Option.mem_def.1 hb, Option.map_some, Option.getD_some, hne, if_false,
      Key.readPositive_toString hpos hle]
    exact if_pos hlong
  rw [Key.set, trim_get hs, hstore]
  rfl

/-! ## All texts together -/

/-- The sections with all values, but another text for the log file. -/
def sections (s : Settings) (file : String) : List Ini.Section :=
  [⟨some "transfer", s.entries "transfer"⟩,
    ⟨some "logging", [(Key.logLevel.ownName, Key.logLevel.get s), (Key.logFile.ownName, file)]⟩]

theorem lookup_sections (s : Settings) (file : String) (k : Key) :
    Ini.lookup (s.sections file) k.sectionName k.ownName = some (if k = .logFile then file else k.get s) := by
  cases k <;> rfl

/-- The log file that a text names. -/
def fileOf (text : String) : Option String := if Text.trim text = "" then none else some (Text.trim text)

theorem set_logFile (t : Settings) (text : String) :
    Key.logFile.set t text = .ok { t with logFile := fileOf text } := rfl

theorem foldlM_texts {s : Settings} {f : Settings → Key → Except SettingsError Settings} {ks : List Key}
    (hf : ∀ k ∈ ks, ∀ t, f t k = .ok (copy k s t)) (rest : List Key) (t : Settings) :
    (ks ++ rest).foldlM f t = rest.foldlM f (ks.foldl (fun t k => copy k s t) t) := by
  induction ks generalizing t with
  | nil => rfl
  | cons k ks ih =>
    rw [List.cons_append, List.foldlM_cons, hf k List.mem_cons_self]
    exact ih (fun k hk => hf k (List.mem_cons_of_mem _ hk)) _

theorem ofSections_sections {s : Settings} (hs : Sound s) (hshort : ¬LongBlock s) (file : String) :
    ofSections (s.sections file) = .ok { s with logFile := fileOf file } := by
  have hall : Key.all = Key.all.dropLast ++ [.logFile] := by decide
  have hothers : ∀ k ∈ Key.all.dropLast, k ≠ .logFile := by decide
  have hcopied : Key.all.dropLast.foldl (fun t k => copy k s t) standard = { s with logFile := none } := by
    simp only [Key.all, List.dropLast, List.foldl_cons, List.foldl_nil, copy]
    rfl
  simp only [ofSections, lookup_sections]
  rw [hall, foldlM_texts (s := s) fun k hk t => ?_, hcopied, List.foldlM_cons, if_pos rfl, set_logFile]
  · rfl
  · rw [if_neg (hothers k hk)]
    exact set_get hs (fun _ => hshort) t

theorem ofSections_longBlock {s : Settings} (hs : Sound s) (hlong : LongBlock s) (file : String) :
    ofSections (s.sections file) =
      .error (.invalidValue .blockLength (Key.blockLength.get s) .longBlock) := by
  have hall : Key.all = Key.all.take 3 ++ .blockLength :: Key.all.drop 4 := by decide
  have hothers : ∀ k ∈ Key.all.take 3, k ≠ .logFile ∧ k ≠ .blockLength := by decide
  simp only [ofSections, lookup_sections]
  rw [hall, foldlM_texts (s := s) fun k hk t => ?_, List.foldlM_cons, if_neg (by decide), set_longBlock hs hlong]
  · rfl
  · rw [if_neg (hothers k hk).1]
    exact set_get hs (fun h => absurd h (hothers k hk).2) t

end Settings

end FileSwarm
