import AtomicFifo.LogFilter.Directive

/-!
# Log filters

A log filter is a list of directives, separated by commas. Of the directives that are about an
event the one that describes it most closely decides, and of several that do so equally the
last. An event that no directive is about is not let through; a filter without directives lets
errors through.

* `LogFilter.read`   reads a filter, with a warning for each part that is no directive
* `LogFilter.lets`   whether an event is let through
-/

namespace AtomicFifo

/-- A log filter. -/
structure LogFilter where
  directives : List Directive
  deriving DecidableEq, Repr

namespace LogFilter

/-- A part of a filter that is no directive. -/
structure Warning where
  part : String
  error : DirectiveError
  deriving DecidableEq, Repr

/-- The text of a warning. -/
def Warning.message (w : Warning) : String := "ignoring `" ++ w.part ++ "`: " ++ w.error.message

/-- What the reading of a filter comes to. -/
structure Reading where
  warnings : List Warning
  /-- The filter, unless a part of it would be cut within a character. -/
  filter : Except Text.PartedChar LogFilter

/-- Reads the parts of a filter. -/
def readParts : List String → Reading
  | [] => ⟨[], .ok ⟨[]⟩⟩
  | part :: parts =>
    match Directive.read part with
    | .ok d =>
      let r := readParts parts
      { r with filter := r.filter.map fun f => ⟨d :: f.directives⟩ }
    | .error (.refused e) =>
      let r := readParts parts
      { r with warnings := ⟨part, e⟩ :: r.warnings }
    | .error (.parted p) => ⟨[], .error p⟩

/-- Reads a filter; empty parts count for nothing. -/
def read (text : String) : Reading := readParts ((text.splitOn ",").filter (· ≠ ""))

/-- The fields that every event has. -/
def eventFields : List String := ["message"]

/-- The directive that decides about events of a target. -/
def deciding? (f : LogFilter) (target : String) : Option Directive :=
  (f.directives.filter (·.admits target eventFields)).foldl
    (fun best d =>
      match best with
      | none => some d
      | some b => if b.closeness ≤ d.closeness then some d else best)
    none

/-- Whether a filter lets events of a level and a target through. -/
def enables (f : LogFilter) (level : Level) (target : String) : Bool :=
  if f.directives.isEmpty then level.rank ≤ Level.error.rank
  else (f.deciding? target).any (level.rank ≤ ·.rank)

/-- Whether a filter lets an event through. -/
def lets (f : LogFilter) (e : Event) : Bool := f.enables e.level e.target

end LogFilter

end AtomicFifo
