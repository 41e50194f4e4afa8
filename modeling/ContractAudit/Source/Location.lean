/-!
# Places in contract text

A location is a point of the text and a span is a pair of them. Lines and columns count from one and
offsets from zero, all in characters. Reports may also carry locations that belong to no text, so
the fields are integers.
-/

namespace ContractAudit

/-- A point of a text. -/
structure Location where
  line : Int
  column : Int
  offset : Int
deriving DecidableEq, Repr, Inhabited

namespace Location

def start : Location := ⟨1, 1, 0⟩

/-- The location of what belongs to no text. -/
def nowhere : Location := ⟨0, 0, 0⟩

/-- The location after a character: only a line feed starts a new line. -/
def next (location : Location) (c : Char) : Location :=
  if c = '\n' then ⟨location.line + 1, 1, location.offset + 1⟩
  else ⟨location.line, location.column + 1, location.offset + 1⟩

def after (location : Location) (text : List Char) : Location :=
  text.foldl next location

/-- The location some characters further on the same line. -/
def right (location : Location) (count : Nat) : Location :=
  ⟨location.line, location.column + count, location.offset + count⟩

def render (location : Location) : String :=
  s!"{location.line}:{location.column}"

@[simp]
theorem after_nil (location : Location) : location.after [] = location := rfl

@[simp]
theorem after_cons (location : Location) (c : Char) (text : List Char) :
    location.after (c :: text) = (location.next c).after text := rfl

theorem after_append (location : Location) (first second : List Char) :
    location.after (first ++ second) = (location.after first).after second := by
  simp [after]

end Location

/-- The text from a start to an end. -/
structure Span where
  start : Location
  finish : Location
deriving DecidableEq, Repr, Inhabited

namespace Span

/-- The span of what belongs to no text. -/
def nowhere : Span := ⟨Location.nowhere, Location.nowhere⟩

def point (location : Location) : Span := ⟨location, location⟩

def render (span : Span) : String :=
  span.start.render ++ "-" ++ span.finish.render

end Span

end ContractAudit
