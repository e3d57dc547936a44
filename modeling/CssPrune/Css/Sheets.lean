import CssPrune.Css.Stylesheet

/-!
# The stylesheets of a run

Stylesheets by name, in the order in which they were first read.
-/

namespace CssPrune

/-- Stylesheets by name. -/
structure Sheets where
  byName : OrderedMap String Stylesheet := .empty
  deriving DecidableEq, Repr

namespace Sheets

/-- No stylesheets. -/
def empty : Sheets := {}

/-- The stylesheet of a name. -/
def sheet? (sheets : Sheets) (name : String) : Option Stylesheet :=
  sheets.byName.get? name

/-- The number of stylesheets. -/
def size (sheets : Sheets) : Nat :=
  sheets.byName.size

/-- Whether there is no stylesheet. -/
def isEmpty (sheets : Sheets) : Bool :=
  sheets.byName.isEmpty

/-- Inserts entries under a name. The name is there afterwards even without entries. -/
def insertAll (sheets : Sheets) (name : String) (entries : List Entry) : Sheets :=
  ⟨sheets.byName.update name fun sheet? => (sheet?.getD .empty).insertAll entries⟩

/-- Keeps the rules whose selector list satisfies `keep`, and every stylesheet and scope. -/
def filter (keep : Text → Bool) (sheets : Sheets) : Sheets :=
  ⟨sheets.byName.mapValues (·.filter keep)⟩

/-- All rules with their selector lists, in order. -/
def rules (sheets : Sheets) : List (Text × Rule) :=
  sheets.byName.values.flatMap (·.rules)

end Sheets

end CssPrune
