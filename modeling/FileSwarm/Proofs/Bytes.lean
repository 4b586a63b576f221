import Mathlib.Data.List.Basic
import FileSwarm.Disk.Basic

/-!
# Byte strings by offset

`Bytes.byte? b o` is the byte at offset `o`, if there is one. Two byte strings with the same bytes are
equal (`ext_byte?`); `byte?_append`, `byte?_extract`, `byte?_zeros` read off the operations, and
`byte?_overlay` what a write does to a file's content.
-/

namespace FileSwarm

namespace Bytes

/-- The byte at an offset, if there is one. -/
def byte? (b : ByteArray) (o : Nat) : Option UInt8 := b.data[o]?

theorem byte?_eq_none {b : ByteArray} {o : Nat} : byte? b o = none ↔ b.size ≤ o :=
  Array.getElem?_eq_none_iff

theorem byte?_of_lt {b : ByteArray} {o : Nat} (h : o < b.size) : byte? b o = some b[o] :=
  Array.getElem?_eq_getElem h

theorem lt_of_byte? {b : ByteArray} {o : Nat} {x : UInt8} (h : byte? b o = some x) : o < b.size :=
  (Array.getElem?_eq_some_iff.1 h).1

theorem ext_byte? {a b : ByteArray} (h : ∀ o, byte? a o = byte? b o) : a = b :=
  ByteArray.ext (Array.ext_getElem? h)

@[simp] theorem byte?_empty (o : Nat) : byte? ByteArray.empty o = none := rfl

theorem byte?_append (a b : ByteArray) (o : Nat) :
    byte? (a ++ b) o = if o < a.size then byte? a o else byte? b (o - a.size) := by
  rw [byte?, ByteArray.data_append, Array.getElem?_append]
  rfl

theorem byte?_extract (b : ByteArray) (i j o : Nat) :
    byte? (b.extract i j) o = if o < min j b.size - i then byte? b (i + o) else none := by
  rw [byte?, ByteArray.data_extract, Array.getElem?_extract]
  rfl

@[simp] theorem size_zeros (n : Nat) : (zeros n).size = n := Array.size_replicate

theorem byte?_zeros (n o : Nat) : byte? (zeros n) o = if o < n then some 0 else none :=
  Array.getElem?_replicate

theorem isEmpty_iff {b : ByteArray} : b.isEmpty ↔ b.size = 0 := beq_iff_eq

theorem isEmpty_eq_false {b : ByteArray} : b.isEmpty = false ↔ 0 < b.size := by
  rw [Nat.pos_iff_ne_zero, ne_eq, ← isEmpty_iff, Bool.not_eq_true]

@[simp] theorem extract_empty (i j : Nat) : ByteArray.empty.extract i j = ByteArray.empty :=
  ext_byte? fun o => by rw [byte?_extract, ByteArray.size_empty, if_neg (by omega), byte?_empty]

theorem extract_append_extract {b : ByteArray} {i j k : Nat} (hij : i ≤ j) (hjk : j ≤ k) :
    b.extract i j ++ b.extract j k = b.extract i k := by
  rw [ByteArray.extract_append_extract, Nat.min_eq_left hij, Nat.max_eq_right hjk]

theorem extract_min (b : ByteArray) (i j : Nat) : b.extract i (min j b.size) = b.extract i j := by
  apply ext_byte?
  intro o
  rw [byte?_extract, byte?_extract, Nat.min_assoc, Nat.min_self]

theorem extract_append_next (b : ByteArray) (o n : Nat) :
    b.extract 0 o ++ b.extract o (o + n) = b.extract 0 (min (o + n) b.size) := by
  rw [extract_append_extract (Nat.zero_le o) (Nat.le_add_right o n), extract_min]

end Bytes

namespace Disk
open Bytes

theorem size_overlay {old new : ByteArray} {offset : Nat} (h : 0 < new.size) :
    (overlay old offset new).size = max old.size (offset + new.size) := by
  rw [overlay, if_neg (by simp [isEmpty_eq_false.2 h])]
  simp only [ByteArray.copySlice_eq_append]
  split
  · simp only [ByteArray.size_append, ByteArray.size_extract, size_zeros, ByteArray.size_data]
    omega
  · simp only [ByteArray.size_append, ByteArray.size_extract, ByteArray.size_data]
    omega

/-- A write puts its bytes in place, fills a gap before them with zeros and leaves the rest. -/
theorem byte?_overlay {old new : ByteArray} {offset : Nat} (h : 0 < new.size) (o : Nat) :
    byte? (overlay old offset new) o =
      if o < offset then if o < old.size then byte? old o else some 0
      else if o < offset + new.size then byte? new (o - offset) else byte? old o := by
  rw [overlay, if_neg (by simp [isEmpty_eq_false.2 h])]
  simp only [ByteArray.copySlice_eq_append]
  split
  · next hgap =>
    simp only [byte?_append, byte?_extract, byte?_zeros, ByteArray.size_append,
      ByteArray.size_extract, size_zeros, ByteArray.size_data]
    have hnone : ∀ {k}, old.size ≤ k → byte? old k = none := fun hk => byte?_eq_none.2 hk
    grind
  · next hgap =>
    simp only [byte?_append, byte?_extract, ByteArray.size_append, ByteArray.size_extract,
      ByteArray.size_data]
    have hnone : ∀ {k}, old.size ≤ k → byte? old k = none := fun hk => byte?_eq_none.2 hk
    grind

theorem byte?_overlay_eq {D old new : ByteArray} {offset : Nat} (hpos : 0 < new.size)
    (hnew : D.extract offset (offset + new.size) = new) {o : Nat}
    (ho : offset ≤ o ∧ o < offset + new.size ∨ byte? old o = byte? D o) (hlt : o < D.size) :
    byte? (overlay old offset new) o = byte? D o := by
  rw [byte?_overlay hpos]
  have hin : offset ≤ o → o < offset + new.size → byte? new (o - offset) = byte? D o := by
    intro h₁ h₂
    rw [← hnew, byte?_extract, if_pos (by omega), Nat.add_sub_cancel' h₁]
  rcases ho with ho | ho
  · rw [if_neg (by omega), if_pos ho.2, hin ho.1 ho.2]
  · have hold : o < old.size := by
      rw [byte?_of_lt hlt] at ho
      exact lt_of_byte? ho
    rw [if_pos hold]
    split
    · exact ho
    · split
      · next h₁ h₂ => exact hin (Nat.le_of_not_lt h₁) h₂
      · exact ho

theorem overlay_extract {D new : ByteArray} {offset : Nat} (hpos : 0 < new.size)
    (hnew : D.extract offset (offset + new.size) = new) : overlay D offset new = D := by
  have hsize : offset + new.size ≤ D.size := by
    have := congrArg ByteArray.size hnew
    rw [ByteArray.size_extract] at this
    omega
  apply ext_byte?
  intro o
  by_cases ho : o < D.size
  · exact byte?_overlay_eq hpos hnew (.inr rfl) ho
  · rw [byte?_eq_none.2 (Nat.le_of_not_lt ho), byte?_eq_none, size_overlay hpos]
    omega

@[simp] theorem size_resize (old : ByteArray) (n : Nat) : (resize old n).size = n := by
  rw [resize]
  split
  · rw [ByteArray.size_extract]; omega
  · rw [ByteArray.size_append, size_zeros]; omega

end Disk

end FileSwarm
