import FileSwarm.Logging.Value
import FileSwarm.Offset
import FileSwarm.Text
import FileSwarm.Text.Alphanumeric
import FileSwarm.Text.Visible

/-!
# Directives of log filters

A directive is a level, or says what it applies to: `target[span\x7bfield=value\x7d]=level`, where
the target, what stands in brackets, and the level may be missing. Without a level it lets all through.

* `level?` : a level by name or number;
* `FieldMatch` : a condition on a field;
* `cut` : a piece of a text between two offsets, which must not fall inside a character;
* `Directive.ofText` : reads a directive. Its shape is that of the text without blanks at its ends;
  the pieces are cut from the text as it is, at the same offsets;
* `Directive.text` : how it is shown;
* `Directive.order` : which of two is more specific.
-/

namespace FileSwarm.Logging

/-- The levels of filters, from none to all. -/
def levelNames : List String := ["off", "error", "warn", "info", "debug", "trace"]

/-- The level that lets all through. -/
def allLevels : String := "trace"

/-- The level that a text names, by name or by number. -/
def level? (text : String) : Option String :=
  match Text.readNumber maxOffset text with
  | .ok n => levelNames[n]?
  | .error _ => levelNames.find? (· = Text.lower text)

/-- The order of what may be missing; what is missing comes first. -/
def orderMissing (order : α → α → Ordering) : Option α → Option α → Ordering
  | none, none => .eq
  | none, some _ => .lt
  | some _, none => .gt
  | some a, some b => order a b

/-! ## Conditions on fields -/

/-- A condition on a span: a field that it has, and the value of the field. -/
structure FieldMatch where
  name : String
  value : Option Value
deriving DecidableEq, Repr

namespace FieldMatch

/-- A field with the value between the first equals sign and the second, if there is one. -/
def ofText? (text : String) : Option FieldMatch :=
  if text = "" then none
  else match text.splitOn "=" with
    | name :: value :: _ => (Value.ofText? value).map fun v => ⟨name, some v⟩
    | _ => some ⟨text, none⟩

def text (f : FieldMatch) : String :=
  match f.value with
  | some value => s!"{f.name}={value.text}"
  | none => f.name

/-- Those with a value come after those without, then it goes by name and value. -/
def order (f g : FieldMatch) : Ordering :=
  (numberOrder f.value.isSome.toNat g.value.isSome.toNat).then <|
  (textOrder f.name g.name).then <|
  orderMissing Value.order f.value g.value

end FieldMatch

/-! ## Pieces of a text -/

/-- Why a text is no filter. -/
inductive Misreading where
  /-- It does not have the shape of one. -/
  | shapeless
  /-- A piece of it would begin or end inside a character. -/
  | splits (f : Fault)
deriving DecidableEq, Repr

/-- Characters with the offsets at which they begin. -/
def placed : (offset : Nat) → List Char → List (Nat × Char)
  | _, [] => []
  | i, c :: cs => (i, c) :: placed (i + c.utf8Size) cs

/-- The fault of an offset inside a character, if it is inside one. -/
def insideFault (text : String) (side : String) (i : Nat) : Option Fault :=
  ((placed 0 text.toList).find? fun (j, c) => j < i && i < j + c.utf8Size).map fun (j, c) =>
    let bytes := s!"(bytes {j}..{j + c.utf8Size} of string)"
    .raised s!"{side} byte index {i} is not a char boundary; it is inside {Text.quoted c} {bytes}"

/-- The piece of a text between two offsets. -/
def cut (text : String) (i j : Nat) : Except Misreading String :=
  match insideFault text "start" i <|> insideFault text "end" j with
  | some fault => .error (.splits fault)
  | none =>
    let piece := (placed 0 text.toList).filter fun (k, _) => i ≤ k && k < j
    .ok (String.ofList (piece.map (·.2)))

/-- What is there, or else the text has not the shape of a filter. -/
def shaped (x : Option α) : Except Misreading α := (x.map .ok).getD (.error .shapeless)

/-! ## Directives -/

structure Directive where
  target : Option String
  span : Option String
  field : Option FieldMatch
  level : String
deriving DecidableEq, Repr

namespace Directive

/-- What is being read, with the offset at which it begins. -/
inductive Mode where
  | start
  | target (begins : Nat)
  | span (begins : Nat)
  | field (begins : Nat)
  | fieldRead
  | spanRead
  | level (begins : Nat)

def blank : Directive := ⟨none, none, none, allLevels⟩

/-- Whether a target may begin with a character. -/
def beginsTarget (c : Char) : Bool := c = '-' || c = ':' || c = '_' || Text.isAlphanumeric c

/-- Read the character at an offset. -/
def step (text : String) (d : Directive) (i : Nat) (c : Char) :
    Mode → Except Misreading (Directive × Mode)
  | .start =>
    if c = '[' then .ok (d, .span (i + 1))
    else if beginsTarget c then .ok (d, .target i)
    else .error .shapeless
  | .target a =>
    if c = '=' then (cut text a i).map fun t => ({ d with target := some t }, .level (i + 1))
    else if c = '[' then (cut text a i).map fun t => ({ d with target := some t }, .span (i + 1))
    else .ok (d, .target a)
  | .span a =>
    if c = ']' then (cut text a i).map fun t => ({ d with span := some t }, .spanRead)
    else if c = '\x7b' then
      (cut text a i).map fun t =>
        ({ d with span := if t = "" then none else some t }, .field (i + 1))
    else .ok (d, .span a)
  | .field a =>
    if c = '\x7d' then do
      let f ← shaped (FieldMatch.ofText? (← cut text a i))
      .ok ({ d with field := some f }, .fieldRead)
    else .ok (d, .field a)
  | .fieldRead => if c = ']' then .ok (d, .spanRead) else .error .shapeless
  | .spanRead => if c = '=' then .ok (d, .level (i + 1)) else .error .shapeless
  | .level a => .ok (d, .level a)

/-- Read on from an offset. -/
def readOn (text : String) :
    Directive → Mode → Nat → List Char → Except Misreading (Directive × Mode)
  | d, mode, _, [] => .ok (d, mode)
  | d, mode, i, c :: rest => do
    let (d, mode) ← step text d i c mode
    readOn text d mode (i + c.utf8Size) rest

/-- The directive, once all of the text was read in a mode. -/
def finish (text : String) (d : Directive) : Mode → Except Misreading Directive
  | .target a => (cut text a text.utf8ByteSize).map fun t =>
    match level? t with
    | some level => { d with level }
    | none => { d with target := some t }
  | .level a => do
    let t ← cut text a text.utf8ByteSize
    if t = "" then .ok d else .ok { d with level := ← shaped (level? t) }
  | .spanRead => .ok d
  | _ => .error .shapeless

/-- The directive of a text without commas. -/
def ofText (text : String) : Except Misreading Directive := do
  let (d, mode) ← readOn text blank .start 0 (Text.trim text).toList
  finish text d mode

/-- What stands in brackets. -/
def bracketText (d : Directive) : String :=
  match d.span, d.field with
  | none, none => ""
  | some span, none => s!"[{span}]"
  | span, some f => "[" ++ span.getD "" ++ "\x7b" ++ f.text ++ "\x7d]"

def text (d : Directive) : String :=
  let applies := (d.target.getD "") ++ d.bracketText
  if d.target.isNone && d.bracketText = "" then d.level else s!"{applies}={d.level}"

/-- Whether a directive depends on what happens within spans. -/
def isDynamic (d : Directive) : Bool := d.span.isSome || d.field.isSome

/-- Whether a directive can be judged without values: it names no span, and of a field only the
name. -/
def isStatic (d : Directive) : Bool := d.span.isNone && !d.field.any (·.value.isSome)

/-- The bytes of the target. -/
def targetSize (d : Directive) : Option Int := d.target.map fun t => (t.utf8ByteSize : Int)

/-- The more specific of two directives comes first: the one with a longer target, then one with a
span, then one with a field; then the one whose texts come last. The level has no part in it. -/
def order (a b : Directive) : Ordering :=
  Ordering.swap <|
  (orderMissing numberOrder a.targetSize b.targetSize).then <|
  (numberOrder a.span.isSome.toNat b.span.isSome.toNat).then <|
  (numberOrder a.field.isSome.toNat b.field.isSome.toNat).then <|
  (orderMissing textOrder a.target b.target).then <|
  (orderMissing textOrder a.span b.span).then <|
  orderMissing FieldMatch.order a.field b.field

end Directive

end FileSwarm.Logging
