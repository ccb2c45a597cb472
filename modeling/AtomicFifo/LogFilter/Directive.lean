import AtomicFifo.Event
import AtomicFifo.LogFilter.Pattern
import AtomicFifo.Text.Cut
import AtomicFifo.Word.Decimal

/-!
# Directives

A directive says up to which rank events are let through, and which events it is about:

    target[span{field=value}]=level

Each part may be missing. A name by itself is a level if it reads as one, and else a target;
a directive without a level lets everything through.

A directive is read through a text without its outer blanks, but its parts are cut from the
text with them, at the same byte positions. Blanks in front thus shift every part, and a cut
may fall within a character, which is no error of the directive but ends the program.

* `Directive.read`    reads a directive
* `Directive.admits`  whether it is about events of a target
-/

namespace AtomicFifo

/-- What a directive asks of a field of an event. -/
structure FieldFilter where
  name : String
  /-- Whether it asks for a value. -/
  valued : Bool
  deriving DecidableEq, Repr

/-- A directive of a log filter. -/
structure Directive where
  /-- The highest rank of an event that is let through. -/
  rank : Nat
  target : Option String
  /-- The span that an event must lie in. -/
  span : Option String
  field : Option FieldFilter
  deriving DecidableEq, Repr

/-- Why a text is no directive. -/
inductive DirectiveError
  | malformed
  /-- What stands in the place of a level is none. -/
  | noLevel
  /-- The value of a field is no pattern. -/
  | noPattern (flaw : Pattern.Flaw)
  deriving DecidableEq, Repr

/-- The wording of an error. -/
def DirectiveError.message : DirectiveError → String
  | .malformed => "invalid filter directive"
  | .noLevel =>
    "error parsing level filter: expected one of \"off\", \"error\", \"warn\", \"info\", "
      ++ "\"debug\", \"trace\", or a number 0-5"
  | .noPattern .malformed => "invalid field filter: error building NFA"
  | .noPattern .wordBoundary =>
    "invalid field filter: unsupported regex feature for DFAs: cannot build DFAs for regexes with "
      ++ "Unicode word boundaries; switch to ASCII word boundaries, or heuristically enable "
      ++ "Unicode word boundaries or use a different regex engine"

/-- How the reading of a directive fails. -/
inductive DirectiveFault
  /-- The text is no directive. -/
  | refused (e : DirectiveError)
  /-- A part would begin or end within a character. -/
  | parted (p : Text.PartedChar)
  deriving DecidableEq, Repr

/-! ### Levels -/

namespace Directive

/-- The rank that lets everything through. -/
def highest : Nat := Level.trace.rank

/-- The ranks by their names. -/
def rankNames : List (String × Nat) :=
  ("off", 0) :: [Level.error, .warn, .info, .debug, .trace].map fun l => (l.word, l.rank)

/-- The rank that a text gives by its number, or by its name in letters of either case. -/
def rank? (text : String) : Option Nat :=
  match Word.ofDecimal text with
  -- A number beyond the last rank is no rank, and not read as a name either.
  | .ok w => if w.toNat ≤ highest then some w.toNat else none
  | .error _ => rankNames.lookup (text.map Char.toLower)

end Directive

/-! ### Fields -/

namespace FieldFilter

/-- A text behind the digits at its front, if there are any. -/
def afterDigits? (cs : List Char) : Option (List Char) :=
  if cs.head?.any Char.isDigit then some (cs.dropWhile Char.isDigit) else none

/-- A text behind a sign at its front. -/
def afterSign (cs : List Char) : List Char :=
  match cs with
  | '+' :: cs | '-' :: cs => cs
  | cs => cs

/-- Whether a text is the exponent of a number, or nothing. -/
def isExponent (cs : List Char) : Bool :=
  match cs with
  | [] => true
  -- The exponent goes to the end of the text.
  | c :: cs => c.toLower = 'e' && afterDigits? (afterSign cs) = some []

/-- Whether a text is a number: a sign, digits with a point and an exponent, or a word for what
is not finite. -/
def isNumeral (text : String) : Bool :=
  let cs := afterSign text.toList
  if ["inf", "infinity", "nan"].contains (String.ofList (cs.map Char.toLower)) then true
  else
    -- Digits in front of a point need none behind it, but a point alone does.
    match afterDigits? cs with
    | some ('.' :: rest) => isExponent ((afterDigits? rest).getD rest)
    | some rest => isExponent rest
    | none =>
      match cs with
      | '.' :: cs => (afterDigits? cs).any isExponent
      | _ => false

/-- Reads a field: its name, and behind a sign of equality the value it must have, which is a
number or a pattern. -/
def read (text : String) : Except DirectiveError FieldFilter :=
  match text.splitOn "=" with
  -- What stands behind a second sign of equality is left out.
  | name :: value :: _ =>
    if isNumeral value then .ok ⟨name, true⟩
    else
      match Pattern.read value with
      | .ok () => .ok ⟨name, true⟩
      | .error flaw => .error (.noPattern flaw)
  | _ => .ok ⟨text, false⟩

end FieldFilter

/-! ### Reading -/

namespace Directive

open Text

/-- The directive of which nothing has been read. -/
def init : Directive := ⟨highest, none, none, none⟩

/-- Which part of a directive the reading is in, and where the part begins. -/
inductive Stage
  /-- In front of the first part. -/
  | start
  /-- In the first part, a level or a target. -/
  | name
  | span (start : Nat)
  | field (start : Nat)
  /-- Behind the field. -/
  | afterField
  /-- Behind the target and its brackets. -/
  | afterTarget
  | level (start : Nat)
  deriving DecidableEq, Repr

/-- A directive that has been read in part. -/
structure Draft where
  directive : Directive
  stage : Stage
  /-- How many bytes have been read. -/
  position : Nat
  deriving DecidableEq, Repr

/-- The piece of a text from one position to another, or to the end. -/
def piece (text : List Char) (start : Nat) (stop : Option Nat) : Except DirectiveFault String :=
  match cut text start stop with
  | .ok cs => .ok (String.ofList cs)
  | .error p => .error (.parted p)

/-- Whether a directive can begin with a character. -/
def canBegin (c : Char) : Bool := c = '-' || c = ':' || c = '_' || isAlphanumeric c

/-- Reads on at a character, with parts cut from a text. -/
def step (text : List Char) (d : Draft) (c : Char) : Except DirectiveFault Draft :=
  let next := d.position + c.utf8Size
  let draft (directive : Directive) (stage : Stage) : Draft := ⟨directive, stage, next⟩
  -- Parts are cut from the text with its blanks, at positions of the one without.
  let piece (start : Nat) := piece text start (some d.position)
  match d.stage with
  | .start =>
    if c = '[' then .ok (draft d.directive (.span next))
    else if canBegin c then .ok (draft d.directive .name)
    else .error (.refused .malformed)
  | .name =>
    if c = '=' then
      (piece 0).map fun target => draft { d.directive with target := some target } (.level next)
    else if c = '[' then
      (piece 0).map fun target => draft { d.directive with target := some target } (.span next)
    else .ok (draft d.directive .name)
  | .span start =>
    if c = ']' then
      (piece start).map fun span => draft { d.directive with span := some span } .afterTarget
    else if c = '\x7b' then
      (piece start).map fun span =>
        -- A span without a name is none, in front of a field.
        draft { d.directive with span := if span = "" then none else some span } (.field next)
    else .ok (draft d.directive (.span start))
  | .field start =>
    if c = '\x7d' then
      match piece start with
      | .error e => .error e
      -- A field must have a name.
      | .ok "" => .error (.refused .malformed)
      | .ok field =>
        match FieldFilter.read field with
        | .ok field => .ok (draft { d.directive with field := some field } .afterField)
        | .error e => .error (.refused e)
    else .ok (draft d.directive (.field start))
  | .afterField =>
    if c = ']' then .ok (draft d.directive .afterTarget) else .error (.refused .malformed)
  | .afterTarget =>
    if c = '=' then .ok (draft d.directive (.level next)) else .error (.refused .malformed)
  -- A level goes to the end, where it is looked at.
  | .level start => .ok (draft d.directive (.level start))

/-- Ends the reading, with the last part cut from a text. -/
def finish (text : List Char) (d : Draft) : Except DirectiveFault Directive :=
  match d.stage with
  | .name =>
    match piece text 0 none with
    | .error e => .error e
    | .ok name =>
      -- A name by itself is a level if it can be one, and else a target.
      match rank? name with
      | some rank => .ok { d.directive with rank := rank }
      | none => .ok { d.directive with target := some name }
  | .level start =>
    match piece text start none with
    | .error e => .error e
    -- No level behind the sign lets everything through.
    | .ok "" => .ok d.directive
    | .ok level =>
      match rank? level with
      | some rank => .ok { d.directive with rank := rank }
      | none => .error (.refused .noLevel)
  | .afterTarget => .ok d.directive
  | .start | .span _ | .field _ | .afterField => .error (.refused .malformed)

/-- Reads a directive. -/
def read (text : String) : Except DirectiveFault Directive :=
  match (trim text.toList).foldlM (step text.toList) ⟨init, .start, 0⟩ with
  | .ok d => finish text.toList d
  | .error e => .error e

/-! ### Meaning -/

/-- Whether a directive decides by itself: one that asks for a span or for a value does not,
since no event of this program has either. -/
def isStatic (d : Directive) : Bool := d.span.isNone && !d.field.any (·.valued)

/-- Whether a directive is about events of a target, which have the fields of these names. -/
def admits (d : Directive) (target : String) (fields : List String) : Bool :=
  d.isStatic && d.target.all (·.toList.isPrefixOf target.toList)
    && d.field.all (fields.contains ·.name)

/-- How closely a directive describes the events it is about: by the length of the target, or
one with no target not at all, and then by having a field. -/
def closeness (d : Directive) : Nat :=
  -- The field decides only between targets of one length.
  2 * d.target.elim 0 (·.length + 1) + if d.field.isSome then 1 else 0

end Directive

end AtomicFifo
