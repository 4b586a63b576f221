import Mathlib.Data.List.Induction
import FileSwarm.Proofs.Bytes
import FileSwarm.RollingSum

/-!
# Rolling sums follow their window

* `RollingSum.ofList` : the sum of some bytes in a list, which `ofSlice` is of the bytes of a slice;
* `ofList_cons` : what a first byte adds to both halves;
* `roll_ofList` : the sum of a window moved by one byte is the sum of the window there;
* `roll?_eq_ok` : no step of a roll leaves the 64-bit numbers;
* `rolled_weakSum` : the sum of a window rolled along a file is the weak sum of the window there.
-/

namespace FileSwarm

namespace Bytes

/-- The bytes from `i` to `j`, in a list. -/
def slice (b : ByteArray) (i j : Nat) : List UInt8 := (b.extract i j).data.toList

theorem length_slice (b : ByteArray) (i j : Nat) : (slice b i j).length = min j b.size - i := by
  rw [slice, Array.length_toList]
  exact ByteArray.size_extract

theorem getElem?_slice (b : ByteArray) (i j o : Nat) :
    (slice b i j)[o]? = if o < min j b.size - i then byte? b (i + o) else none := by
  rw [slice, Array.getElem?_toList]
  exact byte?_extract b i j o

theorem byte?_eq_byteAt {b : ByteArray} {i : Nat} (h : i < b.size) : byte? b i = some (byteAt b i) := by
  rw [byte?_of_lt h, byteAt, dif_pos h]

theorem slice_cons {b : ByteArray} {i j : Nat} (hij : i < j) (hi : i < b.size) :
    slice b i j = byteAt b i :: slice b (i + 1) j := by
  apply List.ext_getElem?
  intro o
  cases o with
  | zero => rw [getElem?_slice, List.getElem?_cons_zero, if_pos (by omega), Nat.add_zero, byte?_eq_byteAt hi]
  | succ o =>
    rw [List.getElem?_cons_succ, getElem?_slice, getElem?_slice, Nat.add_assoc, Nat.add_comm 1 o]
    by_cases h : o + 1 < min j b.size - i
    · rw [if_pos h, if_pos (by omega)]
    · rw [if_neg h, if_neg (by omega)]

theorem slice_snoc {b : ByteArray} {i j : Nat} (hij : i ≤ j) (hj : j < b.size) :
    slice b i (j + 1) = slice b i j ++ [byteAt b j] := by
  apply List.ext_getElem?
  intro o
  rw [List.getElem?_append, length_slice, getElem?_slice]
  by_cases h : o < min j b.size - i
  · rw [if_pos (by omega), if_pos h, getElem?_slice, if_pos h]
  · rw [if_neg h]
    by_cases hlast : o = j - i
    · rw [if_pos (by omega), hlast, show i + (j - i) = j by omega, byte?_eq_byteAt hj,
        show j - i - (min j b.size - i) = 0 by omega, List.getElem?_cons_zero]
    · rw [if_neg (by omega), eq_comm, List.getElem?_eq_none_iff, List.length_singleton]
      omega

theorem foldl_loop {β : Type} (f : β → UInt8 → β) (b : ByteArray) {stop : Nat} (h : stop ≤ b.size)
    (i j : Nat) (hi : stop - j ≤ i) (acc : β) :
    ByteArray.foldlM.loop (m := Id) (fun acc x => pure (f acc x)) b stop h i j acc =
      (slice b j stop).foldl f acc := by
  induction i generalizing j acc with
  | zero =>
    rw [ByteArray.foldlM.loop, dif_neg (by omega)]
    have hnil : slice b j stop = [] := by
      rw [← List.length_eq_zero_iff, length_slice]
      omega
    rw [hnil]
    rfl
  | succ i ih =>
    rw [ByteArray.foldlM.loop]
    by_cases hj : j < stop
    · have hbyte : byteAt b j = b[j] := by rw [byteAt, dif_pos (by omega)]
      rw [dif_pos hj, slice_cons hj (by omega), List.foldl_cons, hbyte]
      exact ih (j + 1) (by omega) _
    · rw [dif_neg hj]
      have hnil : slice b j stop = [] := by
        rw [← List.length_eq_zero_iff, length_slice]
        omega
      rw [hnil]
      rfl

theorem foldl_eq {β : Type} (f : β → UInt8 → β) (acc : β) {b : ByteArray} {i j : Nat} (hj : j ≤ b.size) :
    b.foldl f acc i j = (slice b i j).foldl f acc := by
  unfold ByteArray.foldl ByteArray.foldlM
  rw [dif_pos hj]
  exact foldl_loop f b hj (j - i) i (Nat.le_refl _) acc

end Bytes

namespace RollingSum

/-- The sum of the bytes in a list. -/
def ofList (l : List UInt8) : RollingSum := l.foldl push empty

theorem ofSlice_eq {b : ByteArray} {i j : Nat} (hj : j ≤ b.size) : ofSlice b i j = ofList (Bytes.slice b i j) :=
  Bytes.foldl_eq push empty hj

theorem ofList_snoc (l : List UInt8) (x : UInt8) : ofList (l ++ [x]) = (ofList l).push x :=
  List.foldl_append

theorem ofList_bounds (l : List UInt8) :
    (ofList l).low < modulus ∧ (ofList l).high < modulus ∧ (ofList l).width = l.length := by
  induction l using List.reverseRecOn with
  | nil => exact ⟨by decide, by decide, rfl⟩
  | append_singleton l x ih =>
    rw [ofList_snoc]
    refine ⟨Nat.mod_lt _ (by decide), Nat.mod_lt _ (by decide), ?_⟩
    rw [List.length_append, ← ih.2.2]
    rfl

/-- A first byte `x` adds itself to `low` and, since it is counted with each byte of the window, one and
`x` times the width to `high`. -/
theorem ofList_cons (x : UInt8) (l : List UInt8) :
    (ofList (x :: l)).low = ((ofList l).low + x.toNat) % modulus ∧
      (ofList (x :: l)).high = ((ofList l).high + (l.length + 1) * x.toNat + 1) % modulus := by
  induction l using List.reverseRecOn with
  | nil =>
    refine ⟨rfl, ?_⟩
    show (0 + (1 + x.toNat) % modulus) % modulus = (0 + (0 + 1) * x.toNat + 1) % modulus
    unfold modulus
    omega
  | append_singleton l y ih =>
    obtain ⟨hlow, hhigh⟩ := ih
    have hmul : (l.length + 1 + 1) * x.toNat = (l.length + 1) * x.toNat + x.toNat := Nat.succ_mul _ _
    rw [← List.cons_append, ofList_snoc, ofList_snoc, List.length_append, List.length_singleton, hmul]
    simp only [push, hlow, hhigh]
    generalize (l.length + 1) * x.toNat = p
    unfold modulus
    omega

/-- The sum of the window that has lost its first byte and gained another one. -/
theorem roll_ofList (x y : UInt8) (l : List UInt8) :
    (ofList (x :: l)).roll x y = ofList (l ++ [y]) := by
  obtain ⟨hlow, hhigh⟩ := ofList_cons x l
  obtain ⟨hlow', hhigh', hwidth'⟩ := ofList_bounds l
  have hwidth : (ofList (x :: l)).width = l.length + 1 := (ofList_bounds (x :: l)).2.2
  have hgone : ((l.length + 1) % modulus * x.toNat + 1) % modulus =
      ((l.length + 1) * x.toNat + 1) % modulus := by
    rw [Nat.add_mod, Nat.mod_mul_mod, ← Nat.add_mod]
  have hx : x.toNat < 256 := x.toNat_lt
  rw [ofList_snoc]
  simp only [roll, push, hlow, hhigh, hwidth, hwidth', hgone, mk.injEq, and_true]
  generalize (l.length + 1) * x.toNat = p
  unfold modulus at *
  omega

theorem roll_ofSlice {b : ByteArray} {i width : Nat} (hpos : 0 < width) (h : i + width < b.size) :
    (ofSlice b i (i + width)).roll (Bytes.byteAt b i) (Bytes.byteAt b (i + width)) =
      ofSlice b (i + 1) (i + 1 + width) := by
  rw [ofSlice_eq (Nat.le_of_lt h), ofSlice_eq (by omega), Bytes.slice_cons (by omega) (by omega), roll_ofList,
    ← Bytes.slice_snoc (by omega) h, Nat.add_right_comm]

/-! ## On 64-bit numbers -/

theorem ok_bind {α β : Type} (a : α) (f : α → Except Fault β) : (Except.ok a >>= f) = f a := rfl

/-- With the modulus added, a half that is below it can lose what leaves; all other steps stay far from the
largest number. -/
theorem roll?_eq_ok {s : RollingSum} (hlow : s.low < modulus) (hhigh : s.high < modulus) (x y : UInt8) :
    s.roll? x y = .ok (s.roll x y) := by
  have hx : x.toNat < 256 := x.toNat_lt
  have hy : y.toNat < 256 := y.toNat_lt
  have hmod : ∀ n, n % modulus < modulus := fun n => Nat.mod_lt n (by decide)
  have hproduct : s.width % modulus * x.toNat < maxOffset :=
    Nat.lt_of_le_of_lt (Nat.mul_le_mul (Nat.le_of_lt (hmod _)) (Nat.le_of_lt hx)) (by decide)
  have hgone := hmod (s.width % modulus * x.toNat + 1)
  have hlow' := hmod (s.low + modulus - x.toNat + y.toNat)
  have hbyte : 256 < modulus := by decide
  have hmax : 3 * modulus < maxOffset := by decide
  have hlow₁ : addChecked s.low modulus = .ok _ := addChecked_eq_ok (by omega)
  have hlow₂ : subChecked (s.low + modulus) x.toNat = .ok _ := subChecked_eq_ok (by omega)
  have hlow₃ : addChecked (s.low + modulus - x.toNat) y.toNat = .ok _ := addChecked_eq_ok (by omega)
  have hgone₁ : mulChecked (s.width % modulus) x.toNat = .ok _ := mulChecked_eq_ok (Nat.le_of_lt hproduct)
  have hgone₂ : addChecked (s.width % modulus * x.toNat) 1 = .ok _ := addChecked_eq_ok (by omega)
  have hhigh₁ : addChecked s.high modulus = .ok _ := addChecked_eq_ok (by omega)
  have hhigh₂ : subChecked (s.high + modulus) ((s.width % modulus * x.toNat + 1) % modulus) = .ok _ :=
    subChecked_eq_ok (by omega)
  have hhigh₃ : addChecked (s.high + modulus - (s.width % modulus * x.toNat + 1) % modulus)
      ((s.low + modulus - x.toNat + y.toNat) % modulus) = .ok _ := addChecked_eq_ok (by omega)
  rw [roll?, hlow₁, ok_bind, hlow₂, ok_bind, hlow₃, ok_bind, hgone₁, ok_bind, hgone₂, ok_bind, hhigh₁, ok_bind,
    hhigh₂, ok_bind, hhigh₃, ok_bind]
  rfl

end RollingSum

theorem weakSum_extract {b : ByteArray} {i j : Nat} (hj : j ≤ b.size) :
    weakSum (b.extract i j) = (RollingSum.ofSlice b i j).value := by
  have hwhole : Bytes.slice (b.extract i j) 0 (b.extract i j).size = Bytes.slice b i j := by
    rw [Bytes.slice, ByteArray.extract_zero_size]
    rfl
  have hbytes : RollingSum.ofBytes (b.extract i j) = RollingSum.ofSlice b i j := by
    rw [RollingSum.ofSlice_eq hj, ← hwhole]
    exact Bytes.foldl_eq RollingSum.push .empty (Nat.le_refl _)
  rw [weakSum, hbytes]

/-! ## Along a file -/

namespace RollingSum

/-- The sum of the first `width` bytes, rolled `n` times: roll `i` takes byte `i` out and the one `width`
bytes behind it in. -/
def slide (b : ByteArray) (width n : Nat) : RollingSum :=
  (List.range n).foldl (fun s i => s.roll (Bytes.byteAt b i) (Bytes.byteAt b (i + width))) (ofSlice b 0 width)

/-- The same on 64-bit numbers, up to the first fault. -/
def slide? (b : ByteArray) (width n : Nat) : Except Fault RollingSum :=
  (List.range n).foldlM (fun s i => s.roll? (Bytes.byteAt b i) (Bytes.byteAt b (i + width))) (ofSlice b 0 width)

variable {b : ByteArray} {width n : Nat}

theorem slide_succ (b : ByteArray) (width n : Nat) :
    slide b width (n + 1) = (slide b width n).roll (Bytes.byteAt b n) (Bytes.byteAt b (n + width)) := by
  rw [slide, List.range_succ, List.foldl_append]
  rfl

theorem slide?_succ (b : ByteArray) (width n : Nat) :
    slide? b width (n + 1) =
      slide? b width n >>= fun s => s.roll? (Bytes.byteAt b n) (Bytes.byteAt b (n + width)) := by
  rw [slide?, List.range_succ, List.foldlM_append, ← slide?]
  simp only [List.foldlM_cons, List.foldlM_nil, bind_pure]

theorem slide_eq (hpos : 0 < width) (h : n + width ≤ b.size) : slide b width n = ofSlice b n (n + width) := by
  induction n with
  | zero => rw [Nat.zero_add]; rfl
  | succ n ih => rw [slide_succ, ih (by omega), roll_ofSlice hpos (by omega)]

theorem ofSlice_bounds (i : Nat) {j : Nat} (hj : j ≤ b.size) :
    (ofSlice b i j).low < modulus ∧ (ofSlice b i j).high < modulus := by
  rw [ofSlice_eq hj]
  exact ⟨(ofList_bounds _).1, (ofList_bounds _).2.1⟩

theorem slide?_eq_ok (hpos : 0 < width) (h : n + width ≤ b.size) : slide? b width n = .ok (slide b width n) := by
  induction n with
  | zero => rfl
  | succ n ih =>
    have hle : n + width ≤ b.size := by omega
    obtain ⟨hlow, hhigh⟩ := ofSlice_bounds n hle
    rw [slide?_succ, ih hle, ok_bind, slide_succ, slide_eq hpos hle]
    exact roll?_eq_ok hlow hhigh _ _

/-- A window of any width, rolled along a file one byte after the other, has at every place the weak sum of
the bytes it then covers. Both halves stay below the modulus, and no step of a roll leaves the 64-bit numbers,
so nothing is taken from less than itself. -/
theorem rolled_weakSum (hpos : 0 < width) (h : n + width ≤ b.size) :
    ∃ s, slide? b width n = .ok s ∧ slide b width n = s ∧ s.value = weakSum (b.extract n (n + width)) ∧
      s.low < modulus ∧ s.high < modulus := by
  have hslide := slide_eq hpos h
  have hvalue : (slide b width n).value = weakSum (b.extract n (n + width)) := by rw [hslide, weakSum_extract h]
  have hbounds := ofSlice_bounds n h
  rw [← hslide] at hbounds
  exact ⟨slide b width n, slide?_eq_ok hpos h, rfl, hvalue, hbounds⟩

/-- Some bytes, each one more than the one before. -/
def ramp (n : Nat) : ByteArray := ⟨(Array.range n).map Nat.toUInt8⟩

/-- Two rolls of a window wider than the modulus. -/
theorem rolled_weakSum_wide : 0 < 65522 ∧ 2 + 65522 ≤ (ramp 65524).size ∧
    ∃ s, slide? (ramp 65524) 65522 2 = .ok s ∧ slide (ramp 65524) 65522 2 = s ∧
      s.value = weakSum ((ramp 65524).extract 2 (2 + 65522)) ∧ s.low < modulus ∧ s.high < modulus := by
  have hsize : (ramp 65524).size = 65524 := by simp [ramp, ByteArray.size]
  have hfits : 2 + 65522 ≤ (ramp 65524).size := Nat.le_of_eq hsize.symm
  exact ⟨by decide, hfits, rolled_weakSum (by decide) hfits⟩

end RollingSum

end FileSwarm
