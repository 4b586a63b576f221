import Mathlib
import FileSwarm.Text

/-!
# What trimming and reading a number give back

* `Tidy` : texts without blanks at their ends; `trimChars_eq_self` : those are the ones that trimming leaves alone, and
  `tidy_trimChars` : what is left after it is one of them;
* `readDigits_eq`, `readNumber_toString` : a number within the limit is read back from its decimal digits;
`readNumber_le` : no other number is read.
-/

namespace FileSwarm.Text

/-! ## Trimming -/

/-- No blank at either end. -/
structure Tidy (v : List Char) : Prop where
  head : ∀ c ∈ v.head?, isBlank c = false
  last : ∀ c ∈ v.getLast?, isBlank c = false

theorem dropBlank_eq_self {v : List Char} : dropBlank v = v ↔ ∀ c ∈ v.head?, isBlank c = false := by
  cases v with
  | nil => simp [dropBlank]
  | cons c v =>
    have hlength := (List.dropWhile_suffix (l := v) isBlank).length_le
    cases hc : isBlank c
    · simp [dropBlank, hc]
    · simp only [dropBlank, List.dropWhile_cons, hc, if_true, List.head?_cons, Option.mem_some_iff, forall_eq',
        Bool.true_eq_false, iff_false]
      intro h
      rw [h, List.length_cons] at hlength
      omega

theorem dropBlankEnd_eq_self {v : List Char} : dropBlankEnd v = v ↔ ∀ c ∈ v.getLast?, isBlank c = false := by
  rw [dropBlankEnd, List.reverse_eq_iff, dropBlank_eq_self, List.head?_reverse]

theorem Tidy.of_forall {v : List Char} (h : ∀ c ∈ v, isBlank c = false) : Tidy v :=
  ⟨fun c hc => h c (List.mem_of_mem_head? hc), fun c hc => h c (List.mem_of_mem_getLast? hc)⟩

theorem dropBlankEnd_begins (s : List Char) : dropBlankEnd s <+: s := by
  rw [← List.reverse_suffix, dropBlankEnd, List.reverse_reverse]
  exact List.dropWhile_suffix _

theorem trimChars_sublist (s : List Char) : (trimChars s).Sublist s :=
  (dropBlankEnd_begins _).sublist.trans (List.dropWhile_suffix _).sublist

theorem tidy_trimChars (s : List Char) : Tidy (trimChars s) where
  head := by
    -- what is dropped at the end leaves a prefix, and that starts as the whole does
    intro c hc
    obtain ⟨rest, hrest⟩ : trimChars s <+: dropBlank s := dropBlankEnd_begins _
    have hstart : c ∈ (dropBlank s).head? := by
      rw [← hrest, List.head?_append_of_ne_nil _ (List.ne_nil_of_mem (List.mem_of_mem_head? hc))]
      exact hc
    exact dropBlank_eq_self.1 (List.dropWhile_idempotent isBlank s) c hstart
  last := by
    intro c hc
    rw [trimChars, dropBlankEnd, List.getLast?_reverse] at hc
    exact dropBlank_eq_self.1 (List.dropWhile_idempotent isBlank _) c hc

theorem trimChars_eq_self {v : List Char} : trimChars v = v ↔ Tidy v := by
  constructor
  · intro h
    rw [← h]
    exact tidy_trimChars v
  · intro h
    rw [trimChars, dropBlank_eq_self.2 h.head, dropBlankEnd_eq_self.2 h.last]

theorem trim_eq_self {s : String} : trim s = s ↔ Tidy s.toList := by
  rw [← trimChars_eq_self, trim, ← String.toList_inj, String.toList_ofList]

theorem tidy_trim (s : String) : Tidy (trim s).toList := by
  rw [trim, String.toList_ofList]
  exact tidy_trimChars s.toList

theorem lower_eq_self {s : String} (h : ∀ c ∈ s.toList, c.toLower = c) : lower s = s := by
  rw [lower, ← String.toList_inj, String.toList_map, List.map_congr_left h, List.map_id']

/-! ## Numbers -/

theorem isBlank_of_isDigit {c : Char} (h : c.isDigit = true) : isBlank c = false := by
  have hbounds : 48 ≤ c.toNat ∧ c.toNat ≤ 57 := by
    simpa [Char.isDigit, UInt32.le_iff_toNat_le, ← Char.toNat_val] using h
  simp only [isBlank, Bool.or_eq_false_iff, Bool.and_eq_false_iff, decide_eq_false_iff_not, beq_eq_false_iff_ne]
  omega

theorem readDigits_eq {limit : Nat} {cs : List Char} (hdigits : ∀ c ∈ cs, c.isDigit = true) {n : Nat}
    (h : Nat.ofDigitChars 10 cs n ≤ limit) : readDigits limit cs n = .ok (Nat.ofDigitChars 10 cs n) := by
  induction cs generalizing n with
  | nil => rfl
  | cons c cs ih =>
    rw [Nat.ofDigitChars_cons] at h ⊢
    have hfirst : 10 * n + (c.toNat - 48) ≤ limit := by
      -- more digits only make the number larger
      have hpower : 0 < 10 ^ cs.length := by positivity
      have hgrows := Nat.le_mul_of_pos_left (10 * n + (c.toNat - '0'.toNat)) hpower
      rw [Nat.ofDigitChars_eq_ofDigitChars_zero] at h
      exact Nat.le_trans hgrows (Nat.le_trans (Nat.le_add_right ..) h)
    rw [readDigits, if_pos (hdigits c List.mem_cons_self), if_pos hfirst]
    exact ih (fun d hd => hdigits d (List.mem_cons_of_mem _ hd)) h

theorem readDigits_le {limit m n : Nat} {cs : List Char} (hn : n ≤ limit) (h : readDigits limit cs n = .ok m) :
    m ≤ limit := by
  induction cs generalizing n with
  | nil => rwa [← Except.ok.inj h]
  | cons c cs ih =>
    unfold readDigits at h
    dsimp only at h
    split at h
    · split at h
      · next hnext => exact ih hnext h
      · exact nomatch h
    · exact nomatch h

theorem readNumber_le {limit n : Nat} {s : String} (h : readNumber limit s = .ok n) : n ≤ limit := by
  unfold readNumber at h
  split at h
  · exact nomatch h
  · exact nomatch h
  · exact readDigits_le (Nat.zero_le _) h
  · exact readDigits_le (Nat.zero_le _) h

theorem toList_toString (n : Nat) : (toString n).toList = Nat.toDigits 10 n := Nat.toList_repr

theorem isDigit_of_mem_toString {n : Nat} {c : Char} (h : c ∈ (toString n).toList) : c.isDigit = true := by
  rw [toList_toString] at h
  exact Nat.isDigit_of_mem_toDigits (by decide) (by decide) h

theorem trim_toString (n : Nat) : trim (toString n) = toString n :=
  trim_eq_self.2 (.of_forall fun _ hc => isBlank_of_isDigit (isDigit_of_mem_toString hc))

theorem readNumber_toString {limit n : Nat} (h : n ≤ limit) : readNumber limit (toString n) = .ok n := by
  have hdigits : ∀ c ∈ Nat.toDigits 10 n, c.isDigit = true := fun c hc =>
    Nat.isDigit_of_mem_toDigits (by decide) (by decide) hc
  have hread : readDigits limit (Nat.toDigits 10 n) 0 = .ok n := by
    rw [readDigits_eq hdigits (by rwa [Nat.ofDigitChars_ten_toDigits]), Nat.ofDigitChars_ten_toDigits]
  rw [readNumber, toList_toString]
  split
  · next hnil => exact absurd hnil Nat.toDigits_ne_nil
  · next hplus => exact absurd (hdigits '+' (by rw [hplus]; exact List.mem_cons_self)) (by decide)
  · next hplus => exact absurd (hdigits '+' (by rw [hplus]; exact List.mem_cons_self)) (by decide)
  · exact hread

end FileSwarm.Text
