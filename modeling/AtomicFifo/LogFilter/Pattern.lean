import AtomicFifo.Text.Blank
import AtomicFifo.Text.Letter
import AtomicFifo.Word.Hex

/-!
# Patterns

A field of a log filter may ask for values that match a pattern. No event of this program has
such a value, so all that counts is whether a text is a pattern.

A pattern is read from left to right as a sequence of items: characters, the dot, anchors,
classes in brackets and groups in parentheses, each possibly repeated, with alternatives set
apart by a bar. Flags in parentheses change the mode for the rest of their group. Besides the
grammar there are four limits:

* no item may need tables of characters: letters of either case, and the digits, blanks and
  word characters of Unicode
* outside Unicode mode everything matches whole characters, so no set there goes beyond ASCII
* items may be nested 250 deep
* word boundaries are those of ASCII

A pattern that only breaks the last of them has a refusal of its own.

* `Pattern.read`   reads a text
-/

namespace AtomicFifo.Pattern

open Text

/-- Why a text is no pattern that can be used. -/
inductive Flaw
  | malformed
  /-- A word boundary asks for the word characters of Unicode. -/
  | wordBoundary
  deriving DecidableEq, Repr

/-- How items are understood. -/
structure Mode where
  /-- Letters stand for both of their cases. -/
  caseless : Bool
  /-- Sets are sets of Unicode characters, else of ASCII characters. -/
  unicode : Bool
  /-- Blanks and comments between items are skipped. -/
  spaced : Bool
  deriving DecidableEq, Repr

namespace Mode

/-- The mode in which a pattern begins. -/
def init : Mode := ⟨false, true, false⟩

/-- The rest of a text behind the end of the line. -/
def afterLine : List Char → List Char
  | [] => []
  | c :: cs => if c = '\n' then cs else afterLine cs

/-- The rest of a text behind the blanks and comments at its front, if they are skipped. -/
def skip (m : Mode) (cs : List Char) : List Char :=
  if m.spaced then go false cs else cs
where
  /-- Skips blanks, and all characters of a comment that has begun. -/
  go (comment : Bool) : List Char → List Char
    | [] => []
    | c :: cs =>
      if comment then go (c ≠ '\n') cs
      else if c = '#' then go true cs
      else if isBlank c then go false cs
      else c :: cs

/-- What stands behind a dash in a class: blanks are looked through, and one comment sign. -/
def beyondDash? (m : Mode) (cs : List Char) : Option Char :=
  if m.spaced then
    match cs.dropWhile isBlank with
    | '#' :: cs => (cs.dropWhile isBlank).head?
    | cs => cs.head?
  else cs.head?

/-- The mode after flags, which are switched off behind a dash. -/
def set (m : Mode) (on : Bool) : List Char → Mode
  | [] => m
  | '-' :: flags => m.set false flags
  | 'i' :: flags => { m with caseless := on }.set on flags
  | 'u' :: flags => { m with unicode := on }.set on flags
  | 'x' :: flags => { m with spaced := on }.set on flags
  -- The other flags change nothing that matters for whether a text is a pattern.
  | _ :: flags => m.set on flags

end Mode

/-! ### Atoms -/

/-- What a single place of a pattern holds. -/
inductive Atom
  /-- A character; `byte` if it is given by two hexadecimal digits. -/
  | char (c : Char) (byte : Bool)
  /-- One of the sets of digits, blanks and word characters. -/
  | set
  /-- Any character but a line feed. -/
  | any
  /-- A position: an end of the text or of a line, or a word boundary. -/
  | position (word : Bool)
  deriving DecidableEq, Repr

namespace Atom

/-- Whether an atom can stand by itself. -/
def fits (m : Mode) : Atom → Bool
  -- Letters of either case need tables, and a byte beyond ASCII is no character.
  | .char c byte => if m.unicode then !m.caseless else !byte || c.toNat < 0x80
  | .set => !m.unicode
  | .any => m.unicode
  | .position _ => true

/-- Whether an atom can stand in a class. -/
def fitsClass (m : Mode) : Atom → Bool
  | .char c _ => if m.unicode then !m.caseless else c.toNat < 0x80
  | .set => !m.unicode
  | .any | .position _ => false

/-- Reads so many hexadecimal digits onto the value of those before them. -/
def readHex (m : Mode) : Nat → Nat → List Char → Option (Nat × List Char)
  | 0, value, cs => some (value, cs)
  | n + 1, value, cs =>
    match m.skip cs with
    | [] => none
    | c :: cs =>
      match Word.hexDigit? c with
      | none => none
      | some d => readHex m n (16 * value + d) cs

/-- Reads a character given by so many hexadecimal digits. -/
def ofHex (m : Mode) (digits : Nat) (cs : List Char) : Option (Atom × List Char) :=
  match readHex m digits 0 cs with
  | none => none
  | some (value, cs) =>
    -- A value that is no character is no atom either.
    if value.isValidChar then some (.char (Char.ofNat value) (digits = 2), cs) else none

/-- The characters that a letter behind a backslash stands for. -/
def controls : List (Char × Nat) :=
  [('a', 0x7), ('f', 0xC), ('t', 0x9), ('n', 0xA), ('r', 0xD), ('v', 0xB)]

/-- Reads what stands behind a backslash. -/
def ofEscape (m : Mode) : List Char → Option (Atom × List Char)
  | [] => none
  | c :: cs =>
    match controls.lookup c with
    | some code => some (.char (Char.ofNat code) false, cs)
    | none =>
      match c with
      | 'x' => ofHex m 2 cs
      | 'u' => ofHex m 4 cs
      | 'U' => ofHex m 8 cs
      | 'd' | 's' | 'w' => some (.set, cs)
      | 'A' | 'z' => some (.position false, cs)
      | 'b' | 'B' | '<' | '>' => some (.position true, cs)
      -- Any other sign of ASCII stands for itself, but no letter or digit does.
      | _ => if c.toNat < 0x80 && !c.isAlphanum then some (.char c false, cs) else none

end Atom

/-! ### Nesting -/

/-- How deep a row of parts is nested: one part is no row. -/
def rowDepth : List Nat → Nat
  | [] => 0
  | [depth] => depth
  | depths => depths.foldl max 0 + 1

/-- How deep a pattern may be nested. -/
def depthLimit : Nat := 250

/-- Where in a class the reading is. -/
inductive ClassStage
  /-- At its start, where a caret negates it. -/
  | start
  /-- Behind the start, where dashes stand for themselves. -/
  | dashes
  /-- Behind that. -/
  | body
  deriving DecidableEq, Repr

/-- A class that is open. -/
structure OpenClass where
  stage : ClassStage
  /-- How deep the left side of a set operation is nested. -/
  left : Option Nat
  /-- How deep each part is nested, the last part first. -/
  parts : List Nat
  deriving DecidableEq, Repr

namespace OpenClass

/-- A class that has just been opened. -/
def fresh : OpenClass := ⟨.start, none, []⟩

/-- How deep what is read of a class is nested. -/
def depth (k : OpenClass) : Nat :=
  match k.left with
  | none => rowDepth k.parts
  -- A set operation nests both of its sides once more.
  | some left => max left (rowDepth k.parts) + 1

/-- Appends a part. -/
def push (k : OpenClass) (depth : Nat) : OpenClass :=
  { k with stage := .body, parts := depth :: k.parts }

/-- Begins the right side of a set operation. -/
def operate (k : OpenClass) : OpenClass := ⟨.body, some k.depth, []⟩

end OpenClass

/-- A group that is open: what held and stood in front of it. -/
structure OpenGroup where
  mode : Mode
  /-- How deep each finished alternative is nested. -/
  alternatives : List Nat
  /-- How deep each item of the alternative is nested, the last item first. -/
  items : List Nat
  deriving DecidableEq, Repr

/-! ### Reading -/

/-- What is known of a pattern that has been read in part. -/
structure Reader where
  mode : Mode
  /-- How deep each finished alternative of the innermost group is nested. -/
  alternatives : List Nat
  /-- How deep each item of the alternative under way is nested, the last item first. -/
  items : List Nat
  /-- Whether the last item can be repeated. -/
  repeatable : Bool
  /-- The open groups, the innermost first. -/
  groups : List OpenGroup
  /-- The open classes, the innermost first. -/
  classes : List OpenClass
  /-- The names of groups. -/
  names : List (List Char)
  /-- Whether there is a word boundary of Unicode. -/
  wordBoundary : Bool
  deriving DecidableEq, Repr

namespace Reader

/-- Before the first character. -/
def init : Reader := ⟨.init, [], [], false, [], [], [], false⟩

/-- Appends an item that can be repeated. -/
def push (r : Reader) (depth : Nat) : Reader :=
  { r with items := depth :: r.items, repeatable := true }

/-- How deep what is read of the innermost group is nested. -/
def depth (r : Reader) : Nat := rowDepth (rowDepth r.items :: r.alternatives)

/-- Opens a group. -/
def openGroup (r : Reader) (mode : Mode) : Reader :=
  { r with
    mode := mode, alternatives := [], items := [], repeatable := false,
    groups := ⟨r.mode, r.alternatives, r.items⟩ :: r.groups }

/-- Closes the innermost group. -/
def closeGroup? (r : Reader) : Option Reader :=
  match r.groups with
  | [] => none
  | g :: groups =>
    some { r with
      mode := g.mode, alternatives := g.alternatives, items := (r.depth + 1) :: g.items,
      repeatable := true, groups := groups }

/-- Whether a text can name a group. -/
def isName (name : List Char) : Bool :=
  match name with
  | [] => false
  | c :: cs =>
    (c = '_' || isLetter c)
      && cs.all fun c => c = '_' || c = '.' || c = '[' || c = ']' || isAlphanumeric c

/-- Reads the name of a group, which ends at an angle, and opens the group. -/
def openNamed? (r : Reader) (cs : List Char) : Option (Reader × List Char) :=
  let name := cs.takeWhile (· ≠ '>')
  match cs.dropWhile (· ≠ '>') with
  -- The name has no end.
  | [] => none
  | _ :: rest =>
    if isName name && !r.names.contains name then
      some (({ r with names := name :: r.names }).openGroup r.mode, rest)
    else none

/-- Whether a text is a list of flags: no flag twice, and a dash in front of another flag. -/
def areFlags (flags : List Char) : Bool :=
  flags.all ("imsUuRx-".toList.contains ·) && flags.eraseDups.length = flags.length
    && flags.getLast? ≠ some '-'

/-- Reads flags: by themselves they hold for the rest of the group, and in front of a colon for
the group that they open. -/
def readFlags? (r : Reader) (cs : List Char) : Option (Reader × List Char) :=
  let ends (c : Char) : Bool := c = ':' || c = ')'
  let flags := cs.takeWhile (!ends ·)
  if !areFlags flags then none
  else
    let mode := r.mode.set true flags
    match cs.dropWhile (!ends ·) with
    | ':' :: rest => some (r.openGroup mode, rest)
    | ')' :: rest =>
      -- Flags by themselves must be some.
      if flags.isEmpty then none
      else some ({ r with mode := mode, items := 0 :: r.items, repeatable := false }, rest)
    | _ => none

/-- Reads what stands behind an opening parenthesis. -/
def readGroup? (r : Reader) (cs : List Char) : Option (Reader × List Char) :=
  match r.mode.skip cs with
  | '?' :: 'P' :: '<' :: rest => r.openNamed? rest
  | '?' :: '<' :: rest => r.openNamed? rest
  | '?' :: rest => r.readFlags? rest
  | rest => some (r.openGroup r.mode, rest)

/-- Repeats the last item; a question mark behind the sign makes the repetition lazy. -/
def repeat? (r : Reader) (cs : List Char) : Option (Reader × List Char) :=
  match r.items with
  | depth :: items =>
    -- Neither the start of a group nor flags can be repeated.
    if r.repeatable then
      some ({ r with items := (depth + 1) :: items }, if cs.head? = some '?' then cs.tail else cs)
    else none
  | [] => none

/-- Appends an atom. -/
def pushAtom? (r : Reader) (a : Atom) : Option Reader :=
  if a.fits r.mode then
    -- Outside Unicode mode a boundary is one of ASCII, which can be used.
    let boundary := a = .position true && r.mode.unicode
    some { r.push 0 with wordBoundary := r.wordBoundary || boundary }
  else none

/-- Reads an item that begins with a character. -/
def readItem? (r : Reader) (c : Char) (cs : List Char) : Option (Reader × List Char) :=
  match c with
  | '(' => r.readGroup? cs
  | ')' => r.closeGroup?.map (·, cs)
  | '|' =>
    some ({ r with
      alternatives := rowDepth r.items :: r.alternatives, items := [], repeatable := false }, cs)
  -- A class is read by itself, up to its own end.
  | '[' => some ({ r with classes := [.fresh] }, cs)
  | '?' | '*' | '+' => r.repeat? cs
  | '\x7b' => none
  | '\\' =>
    match Atom.ofEscape r.mode cs with
    | none => none
    | some (a, rest) => (r.pushAtom? a).map (·, rest)
  | '.' => (r.pushAtom? .any).map (·, cs)
  | '^' | '$' => (r.pushAtom? (.position false)).map (·, cs)
  | c => (r.pushAtom? (.char c false)).map (·, cs)

/-! ### Classes -/

/-- The classes of ASCII characters that have names. -/
def classNames : List String :=
  ["alnum", "alpha", "ascii", "blank", "cntrl", "digit", "graph", "lower", "print", "punct",
    "space", "upper", "word", "xdigit"]

/-- Reads a named class behind its bracket, and whether it is negated. -/
def namedClass? : List Char → Option (Bool × List Char)
  | ':' :: cs =>
    let negated := cs.head? = some '^'
    let cs := if negated then cs.tail else cs
    match cs.dropWhile (· ≠ ':') with
    -- Only a name that is closed properly is one; else the bracket opens a class.
    | ':' :: ']' :: rest =>
      if classNames.contains (String.ofList (cs.takeWhile (· ≠ ':'))) then some (negated, rest)
      else none
    | _ => none
  | _ => none

/-- Reads a single place of a class. -/
def classAtom? (m : Mode) (c : Char) (cs : List Char) : Option (Atom × List Char) :=
  if c = '\\' then Atom.ofEscape m cs else some (.char c false, cs)

/-- Reads a character, a set or a range of characters. -/
def classPart? (m : Mode) (c : Char) (cs : List Char) : Option (List Char) :=
  match classAtom? m c cs with
  | none => none
  | some (a, rest) =>
    if !a.fitsClass m then none
    else
      match m.skip rest with
      | '-' :: beyond =>
        -- A dash at the end of a class, or in front of another dash, stands for itself.
        if m.beyondDash? beyond = some ']' || m.beyondDash? beyond = some '-' then
          some ('-' :: beyond)
        else
          match m.skip beyond with
          | [] => none
          | d :: rest =>
            match a, classAtom? m d rest with
            | .char first _, some (.char last byte, rest) =>
              -- A range must not run backwards.
              if first ≤ last && (Atom.char last byte).fitsClass m then some rest else none
            | _, _ => none
      | rest => some rest

/-- Reads on in the innermost class. -/
def readClass? (r : Reader) (k : OpenClass) (outer : List OpenClass) (c : Char) (cs : List Char) :
    Option (Reader × List Char) :=
  let plain := (Atom.char c false).fitsClass r.mode
  if k.stage = .start && c = '^' then
    if r.mode.unicode then some ({ r with classes := { k with stage := .dashes } :: outer }, cs)
    else none
  else if k.stage ≠ .body && c = '-' then
    if plain then some ({ r with classes := { k.push 0 with stage := .dashes } :: outer }, cs)
    else none
  -- A bracket that closes a class with nothing in it stands for itself.
  else if k.stage ≠ .body && k.parts.isEmpty && c = ']' then
    if plain then some ({ r with classes := k.push 0 :: outer }, cs) else none
  else if c = '[' then
    match namedClass? cs with
    | some (negated, rest) =>
      if (if r.mode.unicode then !r.mode.caseless else !negated) then
        some ({ r with classes := k.push 0 :: outer }, rest)
      else none
    | none => some ({ r with classes := .fresh :: { k with stage := .body } :: outer }, cs)
  else if c = ']' then
    match outer with
    | [] => some (({ r with classes := [] }).push (k.depth + 1), cs)
    | k' :: outer => some ({ r with classes := k'.push (k.depth + 1) :: outer }, cs)
  -- Two equal signs are a set operation.
  else if (c = '&' || c = '-' || c = '~') && cs.head? = some c then
    some ({ r with classes := k.operate :: outer }, cs.tail)
  else
    match classPart? r.mode c cs with
    | none => none
    | some rest => some ({ r with classes := k.push 0 :: outer }, rest)

/-- Reads on at a character: a blank or a comment that is skipped, or an item. -/
def step? (r : Reader) (c : Char) (cs : List Char) : Option (Reader × List Char) :=
  if r.mode.spaced && isBlank c then some (r, cs)
  else if r.mode.spaced && c = '#' then some (r, Mode.afterLine cs)
  else
    match r.classes with
    | [] => r.readItem? c cs
    | k :: outer => r.readClass? k outer c cs

/-- Reads a text, in at most so many steps. A step reads one character or more, so the length of
the text is enough. -/
def run? (r : Reader) : (steps : Nat) → List Char → Option Reader
  | _, [] => some r
  -- There is text left, but no step.
  | 0, _ :: _ => none
  | n + 1, c :: cs =>
    match r.step? c cs with
    | none => none
    | some (r, rest) => r.run? n rest

/-- Whether a pattern can end here. -/
def complete (r : Reader) : Bool :=
  r.groups.isEmpty && r.classes.isEmpty && r.depth ≤ depthLimit

end Reader

/-- Reads a text as a pattern. -/
def read (text : String) : Except Flaw Unit :=
  match Reader.init.run? text.length text.toList with
  | none => .error .malformed
  | some r =>
    if !r.complete then .error .malformed
    else if r.wordBoundary then .error .wordBoundary
    else .ok ()

end AtomicFifo.Pattern
