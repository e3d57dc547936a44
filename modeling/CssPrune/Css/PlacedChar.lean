import CssPrune.Source

/-!
# Placed characters

The characters of a stylesheet, each with the byte offset at which it stands in its source. Line
ends are made uniform on the way: a carriage return with the line feed behind it, a lone carriage
return and a form feed all become one line feed.
-/

namespace CssPrune

/-- A character of a stylesheet and the byte offset of its source at which it stands. -/
structure PlacedChar where
  char : Char
  offset : Nat
  deriving DecidableEq, Repr

namespace PlacedChar

/-- The offset behind the character. -/
def stop (placed : PlacedChar) : Nat :=
  placed.offset + placed.char.utf8Size

/-- A carriage return or a form feed counts as a line feed. -/
def lineEnd (c : Char) : Char :=
  if c = '\r' || c = '\x0c' then '\n' else c

/-- Places the characters of a text that starts at `offset`; `done` holds those before it, the
last one first. The line feed of a pair keeps its own place. -/
def placeFrom (offset : Nat) (done : List PlacedChar) : Text → List PlacedChar
  | [] => done.reverse
  | '\r' :: '\n' :: rest => placeFrom (offset + 2) (⟨'\n', offset + 1⟩ :: done) rest
  | c :: rest => placeFrom (offset + c.utf8Size) (⟨lineEnd c, offset⟩ :: done) rest

/-- What is placed already only stands in front. -/
theorem placeFrom_eq (offset : Nat) (done : List PlacedChar) (text : Text) :
    placeFrom offset done text = done.reverse ++ placeFrom offset [] text := by
  refine placeFrom.induct
    (motive := fun offset _ text =>
      ∀ done, placeFrom offset done text = done.reverse ++ placeFrom offset [] text)
    ?_ ?_ ?_ offset done text done
  · intro offset _ done
    simp [placeFrom]
  · intro offset _ rest ih done
    rw [placeFrom, ih (_ :: done), placeFrom, ih [_]]
    simp
  · intro offset _ c rest h ih done
    rw [placeFrom, ih (_ :: done), placeFrom, ih [_]]
    · simp
    · exact h
    · exact h

/-- The placed characters of a text. -/
def ofText (text : Text) : List PlacedChar :=
  placeFrom 0 [] text

/-- The characters alone. -/
def text (placed : List PlacedChar) : Text :=
  placed.map char

/-- The words of placed characters, with a single space between neighbours. -/
def collapse (placed : List PlacedChar) : Text :=
  Text.collapse (text placed)

/-- Whether the character is blank. -/
def isBlank (placed : PlacedChar) : Bool :=
  Text.isBlank placed.char

end PlacedChar

/-- The span from the first through the last of the characters; without characters, the empty span
at the start of the source. -/
def Span.covering (source : Source) (placed : List PlacedChar) : Span :=
  match placed.head?, placed.getLast? with
  | some first, some last => ⟨source, first.offset, last.stop⟩
  | _, _ => ⟨source, 0, 0⟩

end CssPrune
