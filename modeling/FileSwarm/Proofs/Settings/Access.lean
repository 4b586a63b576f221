import FileSwarm.Proofs.Settings.Keys

/-!
# Setting by key: each key a cell of its own

* `set_eq` : whether a text is a value depends on the key and the text alone, and a value goes to its key and nowhere
  else (`set_eq_copy`, `get_copy_of_ne`);
* `foldlM_set_get` : the texts of all keys, one after the other, turn any settings into those they were got from;
* `Usable` : what a transfer relies on; `usable_of_sound` : values within their bounds are enough for it;
* `written` : the settings that texts lead to, some of them refused; `exists_written_iff` : which settings these are;
* `set_atomic_lossless` : all of it for settings that texts lead to.
-/

namespace FileSwarm.Settings

variable {s t : Settings} {k k' : Key}

/-! ## One value in one place -/

/-- Whether a trimmed text is a value does not depend on the settings, and only the value of the key changes. -/
theorem store_eq (k : Key) (s t : Settings) (value : String) :
    k.store s value = (k.store t value).map fun u => copy k u s := by
  cases k with
  | maxChunk => simp only [Key.store]; cases Key.readPositive value <;> rfl
  | minDelta => simp only [Key.store]; cases Key.readNumber value <;> rfl
  | maxRequests => simp only [Key.store]; cases Key.readPositive value <;> rfl
  | blockLength =>
    simp only [Key.store]
    split
    · rfl
    · cases Key.readPositive value with
      | error e => rfl
      | ok n => by_cases h : Signature.maxBlockLength < n <;> simp [bind, Except.bind, h] <;> rfl
  | selection => simp only [Key.store]; cases (Selection.ofName value).mapError ValueError.unknownSelection <;> rfl
  | maxMismatches =>
    simp only [Key.store]
    cases Key.readPositive value with
    | error e => rfl
    | ok n => by_cases h : Key.mismatchLimit < n <;> simp [bind, Except.bind, h] <;> rfl
  | workers => simp only [Key.store]; cases Key.readNumber value <;> rfl
  | logLevel => simp only [Key.store]; cases LogLevel.ofName? (Text.lower value) <;> rfl
  | logFile => rfl

theorem set_eq (k : Key) (s t : Settings) (text : String) :
    k.set s text = (k.set t text).map fun u => copy k u s := by
  simp only [Key.set]
  rw [store_eq k s t]
  cases k.store t (Text.trim text) <;> rfl

theorem set_eq_copy {text : String} (h : k.set s text = .ok t) : t = copy k t s := by
  have hs := set_eq k s s text
  rw [h] at hs
  exact Except.ok.inj hs

theorem set_eq_error {text : String} {e : SettingsError} (h : k.set s text = .error e) (t : Settings) :
    k.set t text = .error e := by
  rw [set_eq k t s, h]
  rfl

theorem get_copy_of_ne (h : k' ≠ k) (s t : Settings) : k'.get (copy k s t) = k'.get t := by
  cases k <;> cases k' <;> first | rfl | exact absurd rfl h

/-! ## All values, one after the other -/

theorem foldl_copy (s t : Settings) : Key.all.foldl (fun t k => copy k s t) t = s := by
  simp only [Key.all, List.foldl_cons, List.foldl_nil, copy]

theorem foldlM_set_get (hs : Sound s) (hshort : ¬LongBlock s) (t : Settings) :
    Key.all.foldlM (fun t k => k.set t (k.get s)) t = .ok s := by
  have hset : ∀ k ∈ Key.all, ∀ t, k.set t (k.get s) = .ok (copy k s t) := fun k _ => set_get hs fun _ => hshort
  have hcopies := foldlM_texts hset [] t
  rwa [List.append_nil, foldl_copy] at hcopies

/-! ## What texts lead to -/

/-- What a transfer relies on: it could not make progress with nothing to ask for or no mismatch to bear, and peers read
signatures of blocks up to a length only. -/
structure Usable (s : Settings) : Prop where
  maxChunk : 1 ≤ s.tuning.maxChunk
  maxRequests : 1 ≤ s.tuning.maxRequests
  maxMismatches : 1 ≤ s.tuning.maxMismatches
  blockLength : s.tuning.blockLength = none ∨
    ∃ n, s.tuning.blockLength = some n ∧ 1 ≤ n ∧ n ≤ Signature.maxBlockLength
  level : Key.logLevel.get s ∈ ["trace", "debug", "info", "warn", "error"]

theorem usable_of_sound (hs : Sound s) (hshort : ¬LongBlock s) : Usable s where
  maxChunk := hs.maxChunk.1
  maxRequests := hs.maxRequests.1
  maxMismatches := hs.maxMismatches.1
  blockLength := by
    cases hb : s.tuning.blockLength with
    | none => exact .inl rfl
    | some n => exact .inr ⟨n, rfl, (hs.blockLength n hb).1, Nat.le_of_not_lt fun hlong => hshort ⟨n, hb, hlong⟩⟩
  level := by
    rw [Key.get]
    cases s.level <;> decide

theorem not_longBlock_set {text : String} (hs : ¬LongBlock s) (h : k.set s text = .ok t) : ¬LongBlock t := by
  by_cases hk : k = .blockLength
  · subst hk
    rintro ⟨n, hn, hlong⟩
    have hstore := store_of_set h
    rw [Key.store] at hstore
    split at hstore
    · rw [← Except.ok.inj hstore] at hn
      exact absurd hn (Option.not_mem_none n)
    · obtain ⟨m, -, ht⟩ := Key.bind_eq_ok hstore
      split at ht
      · cases ht
      · next hshort =>
        rw [← Except.ok.inj ht] at hn
        exact hshort (Option.some.inj hn ▸ hlong)
  · have hsame : t.tuning.blockLength = s.tuning.blockLength := by
      rw [set_eq_copy h]
      cases k <;> first | rfl | exact absurd rfl hk
    simpa only [LongBlock, hsame] using hs

/-- The settings that texts of keys lead to from the standard ones; those that are no values change nothing. -/
def written (texts : List (Key × String)) : Settings := after (texts.map fun c => .key c.1 c.2)

theorem written_append (texts : List (Key × String)) (k : Key) (text : String) :
    written (texts ++ [(k, text)]) = (written texts).change (.key k text) := by
  simp only [written, after, List.map_append, List.foldl_append]
  rfl

theorem not_longBlock_written (texts : List (Key × String)) : ¬LongBlock (written texts) := by
  induction texts using List.reverseRecOn with
  | nil => simp [written, after, LongBlock, standard, Tuning.standard]
  | append_singleton texts c ih =>
    rw [written_append, change]
    cases hr : c.1.set (written texts) c.2 with
    | error e => exact ih
    | ok t => exact not_longBlock_set ih hr

/-- Texts lead to all settings within the bounds, and to no others. -/
theorem exists_written_iff : (∃ texts, written texts = s) ↔ Sound s ∧ ¬LongBlock s := by
  constructor
  · rintro ⟨texts, rfl⟩
    exact ⟨sound_after _, not_longBlock_written texts⟩
  · rintro ⟨hs, hshort⟩
    refine ⟨Key.all.map fun k => (k, k.get s), ?_⟩
    have hset : ∀ t k, t.change (.key k (k.get s)) = copy k s t := fun t k => by
      rw [change, set_get hs fun _ => hshort]
      rfl
    rw [written, after, List.map_map, List.foldl_map]
    simp only [Function.comp_apply, hset]
    exact foldl_copy s standard

/-- Setting by key is all or nothing and loses nothing. A text that is refused changes nothing, and the settings have no
part in that; one that is taken leaves the texts of the other keys. The texts of these settings, set one after the
other, turn any others into them, and they are usable. -/
theorem set_atomic_lossless (texts : List (Key × String)) :
    (∀ k text e, k.set (written texts) text = .error e →
        (written texts).change (.key k text) = written texts ∧ ∀ s, k.set s text = .error e) ∧
      (∀ k text t, k.set (written texts) text = .ok t →
        (written texts).change (.key k text) = t ∧ ∀ k' ≠ k, k'.get t = k'.get (written texts)) ∧
      (∀ s, Key.all.foldlM (fun s k => k.set s (k.get (written texts))) s = .ok (written texts)) ∧
      Usable (written texts) := by
  obtain ⟨hs, hshort⟩ := exists_written_iff.1 ⟨texts, rfl⟩
  refine ⟨fun k text e h => ⟨?_, set_eq_error h⟩, fun k text t h => ⟨?_, fun k' hk' => ?_⟩,
    foldlM_set_get hs hshort, usable_of_sound hs hshort⟩
  · rw [change, h]
    rfl
  · rw [change, h]
    rfl
  · rw [set_eq_copy h]
    exact get_copy_of_ne hk' t (written texts)

/-- Four texts, of which the second and the third are refused. -/
def fourTexts : List (Key × String) :=
  [(.maxChunk, " 4096 "), (.maxChunk, "0"), (.blockLength, "65537"), (.logLevel, "DEBUG")]

/-- A refused text, one that is taken, and what was set copied over other settings. -/
theorem set_atomic_lossless_four :
    (written fourTexts).change (.key .blockLength "65537") = written fourTexts ∧
      Key.logLevel.get ((written fourTexts).change (.key .blockLength "512")) = "debug" ∧
      Key.all.foldlM (fun s k => k.set s (k.get (written fourTexts))) (written [(.workers, "7")]) =
        .ok { Settings.standard with tuning.maxChunk := 4096, level := .debug } := by
  have hwritten : written fourTexts = { Settings.standard with tuning.maxChunk := 4096, level := .debug } := by cbv
  obtain ⟨hrefused, htaken, hcopied, -⟩ := set_atomic_lossless fourTexts
  refine ⟨(hrefused _ _ (.invalidValue .blockLength "65537" .longBlock) ?_).1, ?_, ?_⟩
  · rw [hwritten]
    cbv
  · have hset : Key.blockLength.set (written fourTexts) "512" =
        .ok { written fourTexts with tuning.blockLength := some 512 } := by rw [hwritten]; cbv
    obtain ⟨hchange, hothers⟩ := htaken _ _ _ hset
    rw [hchange, hothers .logLevel (by decide), hwritten]
    rfl
  · rw [hcopied, hwritten]

end FileSwarm.Settings
