import FileSwarm.Offset

/-!
# Byte ranges

A `ByteRange` is the half-open interval `[start, start + length)`. It is the unit of scheduling (one
range is asked of one peer) and the argument of every query on a `PartMap`.

* `stop`, `contains`, `intersects`, `inter?`, ... : on unbounded numbers;
* `stop?`, `contains?`, ... : the same questions on 64-bit offsets. An end past `maxOffset` is a
  fault, but only where the answer needs that end: `a` comes before `b` is settled by the first
  comparison that fails.
-/

namespace FileSwarm

/-- The bytes from `start` on, `length` of them. -/
structure ByteRange where
  start : Nat
  length : Nat
deriving DecidableEq, Repr, Inhabited

namespace ByteRange

/-- From `start` to `stop`, exclusive; empty at `start` if `stop` comes before. -/
def ofBounds (start stop : Nat) : ByteRange := ⟨start, stop - start⟩

/-- The offset just past the last byte. -/
def stop (r : ByteRange) : Nat := r.start + r.length

def isEmpty (r : ByteRange) : Bool := r.length == 0

/-- Whether both ends are offsets. -/
abbrev Fits (r : ByteRange) : Prop := r.stop ≤ maxOffset

instance : Membership Nat ByteRange := ⟨fun r o => r.start ≤ o ∧ o < r.stop⟩

instance (r : ByteRange) (o : Nat) : Decidable (o ∈ r) :=
  inferInstanceAs (Decidable (r.start ≤ o ∧ o < r.stop))

theorem mem_iff {r : ByteRange} {o : Nat} : o ∈ r ↔ r.start ≤ o ∧ o < r.stop := Iff.rfl

def contains (r : ByteRange) (o : Nat) : Bool := decide (o ∈ r)

/-- Whether `b` lies between the ends of `a`, an empty `b` included. -/
def containsRange (a b : ByteRange) : Bool := a.start ≤ b.start && b.stop ≤ a.stop

def intersects (a b : ByteRange) : Bool := a.start < b.stop && b.start < a.stop

theorem intersects_iff {a b : ByteRange} : a.intersects b ↔ a.start < b.stop ∧ b.start < a.stop := by
  simp [intersects]

/-- The bytes of both, if the two intersect. -/
def inter? (a b : ByteRange) : Option ByteRange :=
  if a.intersects b then some (ofBounds (max a.start b.start) (min a.stop b.stop)) else none

/-- The first `limit` bytes, or all if there are fewer. -/
def truncate (r : ByteRange) (limit : Nat) : ByteRange := ⟨r.start, min r.length limit⟩

/-- By start, then by length. -/
def order (a b : ByteRange) : Ordering :=
  (compare a.start b.start).then (compare a.length b.length)

/-! ## On 64-bit offsets -/

def stop? (r : ByteRange) : Except Fault Nat := addChecked r.start r.length

def contains? (r : ByteRange) (o : Nat) : Except Fault Bool :=
  if r.start ≤ o then r.stop?.map (o < ·) else .ok false

def containsRange? (a b : ByteRange) : Except Fault Bool :=
  if a.start ≤ b.start then do
    let inner ← b.stop?
    let outer ← a.stop?
    return inner ≤ outer
  else .ok false

def intersects? (a b : ByteRange) : Except Fault Bool := do
  let stop ← b.stop?
  if a.start < stop then a.stop?.map (b.start < ·) else return false

def interChecked (a b : ByteRange) : Except Fault (Option ByteRange) :=
  (a.intersects? b).map fun meet => if meet then a.inter? b else none

/-- The bounds, as in `[2, 5)`. -/
def text? (r : ByteRange) : Except Fault String :=
  r.stop?.map fun stop => s!"[{r.start}, {stop})"

@[simp] theorem stop_ofBounds {a b : Nat} (h : a ≤ b) : (ofBounds a b).stop = b :=
  Nat.add_sub_cancel' h

theorem stop?_eq_ok {r : ByteRange} (h : r.Fits) : r.stop? = .ok r.stop := if_pos h

end ByteRange

end FileSwarm
