import Mathlib
import FileSwarm.Proofs.Disk.Nodes

/-!
# Paths with the same components

Two texts with the same components lead to the same place, if they lead anywhere: dots and slashes that do not count
lead nowhere else.

* `split_eq`, `slash_not_mem_split` : the pieces of a path;
* `eq_of_same`, `count_eq_of_same` : what paths with the same components have in common;
* `foldlM_step_filter` : a dot leads nowhere; `place_eq_of_same`, `number_eq_of_same` : where the walks end.
-/

namespace FileSwarm

namespace Path

open String (utf8Len ofList)

/-- Splitting from a position on, with the characters `m` read of the present piece. -/
theorem splitOnAux_slash (l m r : List Char) (acc : List String) :
    String.splitOnAux (ofList (l ++ m ++ r)) "/" ⟨utf8Len l⟩ ⟨utf8Len l + utf8Len m⟩ 0 acc =
      acc.reverse ++ (List.splitOnPPrepend (· == '/') r m.reverse).map ofList := by
  induction r generalizing l m acc with
  | nil =>
    rw [String.splitOnAux, if_pos ?_]
    · simpa using String.extract_of_valid l m []
    · simp [String.atEnd_iff, -String.ofList_append]
  | cons c r ih =>
    have hget : String.Pos.Raw.get (ofList (l ++ m ++ c :: r)) ⟨utf8Len l + utf8Len m⟩ = c := by
      simpa [-String.ofList_append] using String.get_of_valid (l ++ m) (c :: r)
    have hnext : String.Pos.Raw.next (ofList (l ++ m ++ c :: r)) ⟨utf8Len l + utf8Len m⟩ =
        ⟨utf8Len l + utf8Len m + c.utf8Size⟩ := by
      simpa [-String.ofList_append] using String.next_of_valid (l ++ m) c r
    have hextract := String.extract_of_valid l m (c :: r)
    have hslash : String.Pos.Raw.get "/" 0 = '/' ∧ String.Pos.Raw.next "/" 0 = ⟨1⟩ := by decide
    have hsize := c.utf8Size_pos
    rw [String.splitOnAux, if_neg ?_]
    · rw [hget, hslash.1, hnext, hslash.2]
      by_cases h : c = '/'
      · -- the piece ends here
        have hone : c.utf8Size = 1 := by rw [h]; decide
        have hback : String.Pos.Raw.unoffsetBy ⟨utf8Len l + utf8Len m + c.utf8Size⟩ ⟨1⟩ = ⟨utf8Len l + utf8Len m⟩ := by
          rw [hone]
          rfl
        have hrest := ih (l ++ m ++ [c]) [] (ofList m :: acc)
        rw [if_pos (by simp [h]), if_pos (by decide), List.splitOnPPrepend_cons_pos (by simp [h]), hback, hextract]
        simpa [-String.ofList_append, Nat.add_assoc] using hrest
      · have hrest := ih l (m ++ [c]) acc
        have hback : String.Pos.Raw.unoffsetBy ⟨utf8Len l + utf8Len m⟩ 0 = ⟨utf8Len l + utf8Len m⟩ := rfl
        rw [if_neg (by simp [h]), List.splitOnPPrepend_cons_neg (by simp [h]), hback, hnext]
        simpa [-String.ofList_append, Nat.add_assoc] using hrest
    · simp [String.atEnd_iff, -String.ofList_append]
      omega

/-- The pieces of a path are those of its characters between slashes. -/
theorem split_eq (p : String) : split p = (p.toList.splitOnP (· == '/')).map ofList := by
  rw [split, String.splitOn, if_neg (by decide)]
  simpa using splitOnAux_slash [] [] p.toList []

theorem slash_not_mem_split (p : String) : "/" ∉ split p := by
  have hpieces : ∀ (xs acc : List Char), '/' ∉ acc → ∀ l ∈ List.splitOnPPrepend (· == '/') xs acc, '/' ∉ l := by
    intro xs
    induction xs with
    | nil =>
      intro acc hacc l hl
      rw [List.splitOnPPrepend_nil, List.mem_singleton] at hl
      rwa [hl, List.mem_reverse]
    | cons c xs ih =>
      intro acc hacc l hl
      rw [List.splitOnPPrepend_cons_eq_if] at hl
      split at hl
      · rcases List.mem_cons.1 hl with rfl | hl
        · rwa [List.mem_reverse]
        · exact ih [] List.not_mem_nil l hl
      · next hc =>
        refine ih (c :: acc) (fun hmem => ?_) l hl
        rcases List.mem_cons.1 hmem with rfl | hmem
        · exact hc rfl
        · exact hacc hmem
  rw [split_eq]
  intro h
  obtain ⟨l, hl, heq⟩ := List.mem_map.1 h
  have hone : l = ['/'] := by
    rw [← String.toList_ofList (l := l), heq]
    rfl
  exact hpieces p.toList [] List.not_mem_nil l hl (by rw [hone]; exact List.mem_singleton_self _)

/-- The components that count, without a slash in front. -/
def names (p : String) : List String := ((split p).zipIdx.filter fun (c, i) => counts i c).map (·.1)

theorem slash_not_mem_names (p : String) : "/" ∉ names p := by
  intro h
  obtain ⟨⟨c, i⟩, hmem, rfl⟩ := List.mem_map.1 h
  exact slash_not_mem_split p (List.fst_mem_of_mem_zipIdx (List.mem_of_mem_filter hmem))

theorem eq_of_same {p q : String} (h : same p q) : isAbsolute p = isAbsolute q ∧ names p = names q := by
  have hp := slash_not_mem_names p
  have hq := slash_not_mem_names q
  have heq : (if isAbsolute p then "/" :: names p else names p) = if isAbsolute q then "/" :: names q else names q :=
    beq_iff_eq.1 h
  cases ha : isAbsolute p <;> cases hb : isAbsolute q <;>
    simp only [ha, hb, Bool.false_eq_true, if_false, if_true] at heq
  · exact ⟨rfl, heq⟩
  · rw [heq] at hp
    exact absurd List.mem_cons_self hp
  · rw [← heq] at hq
    exact absurd List.mem_cons_self hq
  · exact ⟨rfl, (List.cons.inj heq).2⟩

/-- A text has the characters of its pieces, but for the slashes between them. -/
theorem sum_count_splitOnP {c : Char} (hc : c ≠ '/') (l : List Char) :
    ((l.splitOnP (· == '/')).map (List.count c)).sum = l.count c := by
  induction l with
  | nil => simp
  | cons d l ih =>
    rw [List.splitOnP_cons_eq_if_modifyHead]
    split
    · next hd =>
      have hne : d ≠ c := fun h => hc (h.symm.trans (beq_iff_eq.1 hd))
      rw [List.map_cons, List.sum_cons, ih, List.count_nil, Nat.zero_add, List.count_cons_of_ne hne]
    · obtain ⟨first, rest, hsplit⟩ := List.exists_cons_of_ne_nil (List.splitOnP_ne_nil (· == '/') l)
      rw [hsplit, List.map_cons, List.sum_cons] at ih
      rw [hsplit, List.modifyHead_cons, List.map_cons, List.sum_cons, List.count_cons, List.count_cons, ← ih]
      omega

theorem count_of_not_counts {n : Nat} {x : String} (hx : ¬counts n x = true) {c : Char} (hdot : c ≠ '.') :
    x.toList.count c = 0 := by
  have hcases : x = "" ∨ x = "." := by
    by_contra hne
    simp only [not_or] at hne
    exact hx (by simp [counts, hne])
  rcases hcases with rfl | rfl
  · rfl
  · exact List.count_eq_zero.2 (by simpa using hdot)

theorem sum_count_names {c : Char} (hslash : c ≠ '/') (hdot : c ≠ '.') (p : String) :
    ((names p).map fun name => name.toList.count c).sum = p.toList.count c := by
  have hdropped : ∀ (l : List String) (n : Nat),
      ((((l.zipIdx n).filter fun (x, i) => counts i x).map (·.1)).map fun name => name.toList.count c).sum =
        (l.map fun name => name.toList.count c).sum := by
    intro l
    induction l with
    | nil => exact fun _ => rfl
    | cons x l ih =>
      intro n
      have hrest := ih (n + 1)
      rw [List.zipIdx_cons, List.map_cons, List.sum_cons, ← hrest]
      by_cases hx : counts n x
      · rw [List.filter_cons_of_pos (by simpa using hx), List.map_cons, List.map_cons, List.sum_cons]
      · rw [List.filter_cons_of_neg (by simpa using hx), count_of_not_counts hx hdot, Nat.zero_add]
  rw [names, hdropped, split_eq, List.map_map, ← sum_count_splitOnP hslash p.toList]
  simp [Function.comp_def]

/-- Paths with the same components have the same characters, but for slashes and dots. -/
theorem count_eq_of_same {p q : String} (h : same p q) {c : Char} (hslash : c ≠ '/') (hdot : c ≠ '.') :
    p.toList.count c = q.toList.count c := by
  rw [← sum_count_names hslash hdot p, ← sum_count_names hslash hdot q, (eq_of_same h).2]

theorem filter_names (p : String) : (names p).filter (· != ".") = (steps p).filter (· != ".") := by
  have h : ∀ (l : List String) (n : Nat),
      (((l.zipIdx n).filter fun (c, i) => counts i c).map (·.1)).filter (· != ".") =
        (l.filter (· != "")).filter (· != ".") := by
    intro l
    induction l with
    | nil => exact fun _ => rfl
    | cons c l ih =>
      intro n
      have hrest := ih (n + 1)
      rw [List.zipIdx_cons]
      by_cases hempty : c = ""
      · rw [List.filter_cons_of_neg (by simp [counts, hempty]), List.filter_cons_of_neg (by simp [hempty])]
        exact hrest
      · rw [List.filter_cons_of_pos (a := c) (by simpa using hempty)]
        by_cases hdot : c = "."
        · rw [List.filter_cons_of_neg (a := c) (by simp [hdot])]
          by_cases hn : counts n c
          · rw [List.filter_cons_of_pos (by simpa using hn), List.map_cons, List.filter_cons_of_neg (by simp [hdot])]
            exact hrest
          · rw [List.filter_cons_of_neg (by simpa using hn)]
            exact hrest
        · rw [List.filter_cons_of_pos (by simp [counts, hempty, hdot]), List.map_cons,
            List.filter_cons_of_pos (by simpa using hdot), List.filter_cons_of_pos (by simpa using hdot), hrest]
  exact h (split p) 0

end Path

namespace Disk

variable {d : Disk}

theorem foldlM_step_filter {steps : List String} {x y : List String} (h : steps.foldlM d.step x = .ok y) :
    (steps.filter (· != ".")).foldlM d.step x = .ok y := by
  induction steps generalizing x with
  | nil => exact h
  | cons name steps ih =>
    rw [List.foldlM_cons] at h
    cases hs : d.step x name with
    | error _ => rw [hs] at h; exact nomatch h
    | ok z =>
      rw [hs] at h
      have hrest : (steps.filter (· != ".")).foldlM d.step z = .ok y := ih h
      by_cases hdot : name = "."
      · subst hdot
        have hsame : z = x := by
          unfold step at hs
          split at hs
          · exact nomatch hs
          · exact (Except.ok.inj hs).symm
          · exact nomatch hs
        rw [List.filter_cons_of_neg (by simp), ← hsame]
        exact hrest
      · rw [List.filter_cons_of_pos (by simpa using hdot), List.foldlM_cons, hs]
        exact hrest

theorem walk_eq_ok {path : String} {steps place : List String} (h : d.walk path steps = .ok place) :
    steps.foldlM d.step (if Path.isAbsolute path then [] else d.here) = .ok place := by
  unfold walk at h
  split at h
  · exact nomatch h
  · split at h
    · exact nomatch h
    · split at h
      · exact nomatch h
      · exact h

/-- Paths with the same components lead to the same place. -/
theorem place_eq_of_same {p q : String} {x y : List String} (h : Path.same p q) (hp : d.place p = .ok x)
    (hq : d.place q = .ok y) : x = y := by
  obtain ⟨habsolute, hnames⟩ := Path.eq_of_same h
  have hx := foldlM_step_filter (walk_eq_ok hp)
  have hy := foldlM_step_filter (walk_eq_ok hq)
  rw [← Path.filter_names, habsolute, hnames, Path.filter_names] at hx
  exact Except.ok.inj (hx.symm.trans hy)

theorem number_eq_of_same {p q : String} {m n : Nat} (h : Path.same p q) (hp : d.number p = .ok m)
    (hq : d.number q = .ok n) : m = n := by
  have hplace : ∀ {path : String} {k : Nat}, d.number path = .ok k →
      ∃ x, d.place path = .ok x ∧ d.numberAt? x = some k := by
    intro path k hk
    simp only [number, bind, Except.bind, throw, throwThe, MonadExceptOf.throw, pure, Except.pure] at hk
    cases hx : d.place path with
    | error _ => rw [hx] at hk; cases hk
    | ok x =>
      rw [hx] at hk
      dsimp only at hk
      refine ⟨x, rfl, ?_⟩
      split at hk
      · cases hk
      · next i hi =>
        split at hk
        · split at hk
          · cases hk
          · rw [hi, Except.ok.inj hk]
        · cases hk
  obtain ⟨x, hx, hm⟩ := hplace hp
  obtain ⟨y, hy, hn⟩ := hplace hq
  rw [place_eq_of_same h hx hy, hn] at hm
  exact (Option.some.inj hm).symm

end Disk

end FileSwarm
