import FileSwarm.ByteRange

/-!
# Part maps

A `PartMap` says for every byte of a file whether it is needed, asked for (pending) or present
(available). It is a list of parts, each a range with one state, that tiles the file: no gap, no
overlap, no empty part, and no two neighbours with one state. `PartMap.states` is the list with one
state per byte that it stands for.

* `Tiles` : what such a list of parts is;
* `splice` : one pass over the parts that puts a range with its state in their midst;
* `coalesce` : no empty parts and no equal neighbours any more;
* `tiles_coalesce`, `abut_splice` : the two give parts that tile the file again;
* `PartMap.set` : give all bytes of a range one state; bytes past the end are ignored;
* `PartMap.first?`, `count`, `counts`, `isComplete` : queries.
-/

namespace FileSwarm

/-- What is known about a byte: it must still be fetched, it was asked of a peer, or it is in the
temp file. -/
inductive PartState where
  | needed
  | pending
  | available
deriving DecidableEq, Repr, Inhabited

namespace PartState

def text : PartState → String
  | needed => "needed"
  | pending => "pending"
  | available => "available"

def all : List PartState := [needed, pending, available]

end PartState

/-- Some bytes in a row with one state. -/
abbrev Part := ByteRange × PartState

/-! ## Lists of parts -/

/-- One state per byte. -/
def statesOf (l : List Part) : List PartState := l.flatMap fun p => List.replicate p.1.length p.2

/-- Each part begins where the one before it stops, from `a` up to `b`. -/
def Abut : Nat → Nat → List Part → Prop
  | a, b, [] => a = b
  | a, b, p :: rest => p.1.start = a ∧ Abut p.1.stop b rest

/-- The bytes from `a` to `b` in parts: each begins where the one before it stops, none is empty, and
no two neighbours have one state. -/
def Tiles : Nat → Nat → List Part → Prop
  | a, b, [] => a = b
  | a, b, p :: rest =>
    p.1.start = a ∧ 0 < p.1.length ∧ (∀ q ∈ rest.head?, q.2 ≠ p.2) ∧ Tiles p.1.stop b rest

namespace Tiles

theorem le {a b : Nat} {l : List Part} (h : Tiles a b l) : a ≤ b := by
  induction l generalizing a with
  | nil => exact Nat.le_of_eq h
  | cons p rest ih =>
    obtain ⟨rfl, -, -, hrest⟩ := h
    exact Nat.le_trans (Nat.le_add_right _ _) (ih hrest)

end Tiles

/-- What stands of a part before `r`. -/
def before (r : ByteRange) (p : Part) : List Part :=
  if p.1.start < r.start then [(.ofBounds p.1.start r.start, p.2)] else []

/-- What stands of a part behind `r`. -/
def behind (r : ByteRange) (p : Part) : List Part :=
  if r.stop < p.1.stop then [(.ofBounds r.stop p.1.stop, p.2)] else []

/-- One pass over the parts that puts `r`, in the state `s`, in their midst. Of a part that meets `r`
what stands before and behind `r` stays. `placed` says whether `r` was put down already. -/
def splice (r : ByteRange) (s : PartState) : Bool → List Part → List Part
  | placed, [] => if placed then [] else [(r, s)]
  | placed, p :: rest =>
    if p.1.intersects r then
      before r p ++ (if placed then [] else [(r, s)]) ++ behind r p ++ splice r s true rest
    else if !placed && r.stop ≤ p.1.start then (r, s) :: p :: splice r s true rest
    else p :: splice r s placed rest

/-- The parts with no empty ones and no equal neighbours, `last` being the part in hand. -/
def coalesceFrom (last : Part) : List Part → List Part
  | [] => [last]
  | p :: rest =>
    if p.1.isEmpty then coalesceFrom last rest
    else if last.2 = p.2 ∧ last.1.stop = p.1.start then
      coalesceFrom (.ofBounds last.1.start p.1.stop, last.2) rest
    else last :: coalesceFrom p rest

/-- The parts with no empty ones and no equal neighbours. -/
def coalesce : List Part → List Part
  | [] => []
  | p :: rest => if p.1.isEmpty then coalesce rest else coalesceFrom p rest

/-! ## They tile the file again -/

theorem abut_before {r : ByteRange} {p : Part} {b : Nat} {l : List Part} (h : Abut r.start b l)
    (hle : p.1.start ≤ r.start) : Abut p.1.start b (before r p ++ l) := by
  unfold before
  split
  · exact ⟨rfl, by rwa [ByteRange.stop_ofBounds hle]⟩
  · rwa [show p.1.start = r.start by omega]

theorem abut_behind {r : ByteRange} {p : Part} {b : Nat} {l : List Part}
    (h : Abut (max p.1.stop r.stop) b l) : Abut r.stop b (behind r p ++ l) := by
  unfold behind
  split
  · next hlt =>
    rw [Nat.max_eq_left (Nat.le_of_lt hlt)] at h
    exact ⟨rfl, by rwa [ByteRange.stop_ofBounds (Nat.le_of_lt hlt)]⟩
  · rwa [Nat.max_eq_right (by omega)] at h

/-- Once `r` is down, what is left of the parts begins where `r` stops, or later. -/
theorem abut_splice_true {r : ByteRange} (s : PartState) {a b : Nat} {l : List Part}
    (h : Tiles a b l) (hr : r.start ≤ a) (hb : r.stop ≤ b) :
    Abut (max a r.stop) b (splice r s true l) := by
  induction l generalizing a with
  | nil =>
    obtain rfl : a = b := h
    exact Nat.max_eq_left hb
  | cons p rest ih =>
    obtain ⟨rfl, hp, -, hrest⟩ := h
    have hstop : p.1.stop = p.1.start + p.1.length := rfl
    have hrest := ih hrest (by omega)
    rw [splice]
    by_cases hmeet : p.1.start < r.stop
    · -- `r` reaches into this part, so only what stands behind `r` is left of it
      rw [if_pos (ByteRange.intersects_iff.2 ⟨hmeet, by omega⟩), before, if_neg (by omega), if_pos rfl,
        Nat.max_eq_right (by omega)]
      exact abut_behind hrest
    · rw [if_neg (fun h => hmeet (ByteRange.intersects_iff.1 h).1), if_neg (by simp),
        Nat.max_eq_left (by omega)]
      rw [Nat.max_eq_left (by omega)] at hrest
      exact ⟨rfl, hrest⟩

theorem abut_splice {r : ByteRange} (s : PartState) {a b : Nat} {l : List Part}
    (h : Tiles a b l) (hr : a ≤ r.start) (hb : r.stop ≤ b) : Abut a b (splice r s false l) := by
  have hle : r.start ≤ r.stop := Nat.le_add_right _ _
  induction l generalizing a with
  | nil =>
    obtain rfl : a = b := h
    exact ⟨show r.start = a by omega, show r.stop = a by omega⟩
  | cons p rest ih =>
    obtain ⟨rfl, hp, -, hrest⟩ := h
    have hstop : p.1.stop = p.1.start + p.1.length := rfl
    rw [splice]
    by_cases hafter : p.1.stop ≤ r.start
    · rw [if_neg (fun h => Nat.not_lt.2 hafter (ByteRange.intersects_iff.1 h).2), if_neg (by simp; omega)]
      exact ⟨rfl, ih hrest hafter⟩
    · have htail := abut_splice_true s hrest (by omega) hb
      by_cases hmeet : p.1.start < r.stop
      · rw [if_pos (ByteRange.intersects_iff.2 ⟨hmeet, by omega⟩), if_neg Bool.false_ne_true,
          List.append_assoc, List.append_assoc]
        exact abut_before ⟨rfl, abut_behind htail⟩ hr
      · -- an empty range where this part begins
        rw [if_neg (fun h => hmeet (ByteRange.intersects_iff.1 h).1), if_pos (by simp; omega)]
        rw [Nat.max_eq_left (by omega)] at htail
        exact ⟨show r.start = _ by omega, show p.1.start = r.stop by omega, htail⟩

/-- Coalescing goes on with the state of the part in hand. -/
theorem head?_coalesceFrom (last : Part) (l : List Part) :
    ∀ q ∈ (coalesceFrom last l).head?, q.2 = last.2 := by
  induction l generalizing last with
  | nil => simp [coalesceFrom]
  | cons p rest ih =>
    rw [coalesceFrom]
    split
    · exact ih last
    · split
      · exact ih _
      · simp

theorem tiles_coalesceFrom {last : Part} {b : Nat} {l : List Part} (h : Abut last.1.stop b l)
    (hpos : 0 < last.1.length) : Tiles last.1.start b (coalesceFrom last l) := by
  induction l generalizing last with
  | nil => exact ⟨rfl, hpos, by simp, h⟩
  | cons p rest ih =>
    obtain ⟨hstart, hrest⟩ := h
    have hstop : p.1.stop = p.1.start + p.1.length := rfl
    have hlast : last.1.stop = last.1.start + last.1.length := rfl
    rw [coalesceFrom]
    split
    · next hempty =>
      have : p.1.length = 0 := by simpa [ByteRange.isEmpty] using hempty
      exact ih (by rwa [show last.1.stop = p.1.stop by omega]) hpos
    · next hempty =>
      have : p.1.length ≠ 0 := by simpa [ByteRange.isEmpty] using hempty
      split
      · refine @ih (.ofBounds last.1.start p.1.stop, last.2) ?_ ?_
        · rwa [ByteRange.stop_ofBounds (by omega)]
        · exact Nat.sub_pos_of_lt (by omega)
      · next hne =>
        refine ⟨rfl, hpos, fun q hq => ?_, hstart ▸ ih hrest (Nat.pos_of_ne_zero this)⟩
        rw [head?_coalesceFrom p rest q hq]
        exact fun he => hne ⟨he.symm, hstart.symm⟩

/-- Parts that abut tile once they are coalesced. -/
theorem tiles_coalesce {a b : Nat} {l : List Part} (h : Abut a b l) : Tiles a b (coalesce l) := by
  induction l generalizing a with
  | nil => exact h
  | cons p rest ih =>
    obtain ⟨rfl, hrest⟩ := h
    rw [coalesce]
    split
    · next hempty =>
      have : p.1.length = 0 := by simpa [ByteRange.isEmpty] using hempty
      rw [ByteRange.stop, this] at hrest
      exact ih hrest
    · next hempty =>
      exact tiles_coalesceFrom hrest (Nat.pos_of_ne_zero (by simpa [ByteRange.isEmpty] using hempty))

/-- Bytes per state. -/
structure PartCounts where
  needed : Nat
  pending : Nat
  available : Nat
deriving DecidableEq, Repr, Inhabited

/-! ## The map of a file -/

/-- The state of every byte of a file, in parts that tile it. -/
structure PartMap where
  length : Nat
  /-- The parts with their states, in offset order. -/
  parts : List Part
  tiles : Tiles 0 length parts
deriving DecidableEq, Repr

namespace PartMap

/-- A file of `length` bytes of which nothing is there. -/
def blank (length : Nat) : PartMap where
  length := length
  parts := if length = 0 then [] else [(⟨0, length⟩, .needed)]
  tiles := by
    split
    · next h => exact h.symm
    · next h => exact ⟨rfl, Nat.pos_of_ne_zero h, by simp, Nat.zero_add _⟩

instance : Inhabited PartMap := ⟨blank 0⟩

/-- All bytes of the file. -/
def range (m : PartMap) : ByteRange := ⟨0, m.length⟩

/-- One state per byte of the file. -/
def states (m : PartMap) : List PartState := statesOf m.parts

theorem inter?_range (m : PartMap) (r : ByteRange) :
    r.inter? m.range =
      if r.start < m.length ∧ 0 < r.stop then some (.ofBounds r.start (min r.stop m.length)) else none := by
  have hstop : m.range.stop = m.length := Nat.zero_add _
  rw [ByteRange.inter?, hstop, show max r.start m.range.start = r.start from Nat.max_zero _]
  exact ite_congr (propext (ByteRange.intersects_iff.trans (by rw [hstop]; rfl))) (fun _ => rfl) fun _ => rfl

/-- The parts once every byte of `r` that the file has is in the state `s`. -/
def updated (m : PartMap) (r : ByteRange) (s : PartState) : List Part :=
  match r.inter? m.range with
  | none => m.parts
  | some inside => coalesce (splice inside s false m.parts)

theorem tiles_updated (m : PartMap) (r : ByteRange) (s : PartState) : Tiles 0 m.length (m.updated r s) := by
  rw [updated, inter?_range]
  by_cases hmeet : r.start < m.length ∧ 0 < r.stop
  · rw [if_pos hmeet]
    have hle : r.start ≤ r.stop := Nat.le_add_right _ _
    refine tiles_coalesce (abut_splice s m.tiles (Nat.zero_le _) ?_)
    rw [ByteRange.stop_ofBounds (by omega)]
    exact Nat.min_le_right _ _
  · rw [if_neg hmeet]
    exact m.tiles

/-- Give every byte of `r` that the file has the state `s`. -/
def set (m : PartMap) (r : ByteRange) (s : PartState) : PartMap :=
  ⟨m.length, m.updated r s, m.tiles_updated r s⟩

/-- The first part in state `s`. -/
def first? (m : PartMap) (s : PartState) : Option ByteRange :=
  (m.parts.find? (·.2 = s)).map (·.1)

/-- The number of bytes of `r` in state `s`. -/
def count (m : PartMap) (r : ByteRange) (s : PartState) : Nat :=
  sumOf (((m.parts.filter (·.2 = s)).filterMap (·.1.inter? r)).map (·.length))

/-- The number of bytes in state `s`. -/
def countAll (m : PartMap) (s : PartState) : Nat :=
  sumOf ((m.parts.filter (·.2 = s)).map (·.1.length))

def counts (m : PartMap) : PartCounts :=
  ⟨m.countAll .needed, m.countAll .pending, m.countAll .available⟩

/-- Whether every byte is available. As neighbours differ, this takes a look at two parts. -/
def isComplete (m : PartMap) : Bool :=
  match m.parts with
  | [] => true
  | [p] => p.2 = .available
  | _ => false

/-! ## On 64-bit offsets -/

/-- `set`, a fault if the range starts inside the file and ends past the last offset. -/
def set? (m : PartMap) (r : ByteRange) (s : PartState) : Except Fault PartMap :=
  if r.start < m.length then r.stop?.map fun _ => m.set r s else .ok m

/-- `count`, a fault if some run is in state `s` and the range ends past the last offset. -/
def count? (m : PartMap) (r : ByteRange) (s : PartState) : Except Fault Nat :=
  if m.parts.any (·.2 = s) then r.stop?.map fun _ => m.count r s else .ok 0

end PartMap

end FileSwarm
