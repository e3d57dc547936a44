import CssPrune.Text.Basic

/-!
# Sources and positions

A source is a named text. Places in it are byte offsets into its UTF-8 form; `Source.position?`
turns an offset into a line and a column, and has no answer for an offset that is not the start of
a character or the end of the text.
-/

namespace CssPrune

/-- A named text. -/
structure Source where
  name : String
  text : Text
  deriving DecidableEq, Repr

/-- A line and a column, both counted from zero. A column counts characters. -/
structure Position where
  line : Nat
  column : Nat
  deriving DecidableEq, Repr

namespace Position

/-- The position behind a character: only a line feed begins a new line. -/
def advance (position : Position) (c : Char) : Position :=
  if c = '\n' then ⟨position.line + 1, 0⟩ else ⟨position.line, position.column + 1⟩

/-- The position at an offset from the start of a text that itself starts at `position`. -/
def seek? (position : Position) : Text → Nat → Option Position
  | _, 0 => some position
  | [], _ + 1 => none
  | c :: rest, offset + 1 =>
    if offset + 1 < c.utf8Size then none
    else seek? (position.advance c) rest (offset + 1 - c.utf8Size)

end Position

namespace Source

/-- The line and column of a byte offset. -/
def position? (source : Source) (offset : Nat) : Option Position :=
  Position.seek? ⟨0, 0⟩ source.text offset

/-- A line, without the line feed that ends it. -/
def line? (source : Source) (line : Nat) : Option Text :=
  (source.text.splitOn '\n')[line]?

end Source

/-- A stretch of a source, from the byte offset `start` up to but without `stop`. -/
structure Span where
  source : Source
  start : Nat
  stop : Nat
  deriving DecidableEq, Repr

/-- A stretch of a named source in lines and columns; `stop` is behind its last character. -/
structure Location where
  file : String
  start : Position
  stop : Position
  deriving DecidableEq, Repr

/-- The location of a span, if both its ends are ends of characters. -/
def Span.location? (span : Span) : Option Location := do
  let start ← span.source.position? span.start
  let stop ← span.source.position? span.stop
  return ⟨span.source.name, start, stop⟩

end CssPrune
