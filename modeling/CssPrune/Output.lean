import CssPrune.Css.Printer
import CssPrune.Css.Sheets
import CssPrune.Settings

/-!
# Output

The rewritten stylesheets of a run, each with the name that it was read under and the name that it
is written to.
-/

namespace CssPrune

/-- A rewritten stylesheet. -/
structure Output where
  name : String
  /-- The name that it is written to. -/
  target : String
  text : Text
  deriving DecidableEq, Repr

namespace Output

/-- Puts a text before the last dot of a name, or at the end of a name without dots. -/
def insertSuffix (suffix name : Text) : Text :=
  if name.contains '.' then
    let extension := Text.afterLast '.' name
    name.take (name.length - extension.length - 1) ++ suffix ++ '.' :: extension
  else name ++ suffix

/-- The name that a stylesheet is written to. -/
def targetOf (suffix : Option String) (name : String) : String :=
  match suffix with
  | none => name
  | some suffix => String.ofList (insertSuffix suffix.toList name.toList)

/-- The text that a stylesheet is written as. -/
def textOf (settings : Settings) (sheet : Stylesheet) : Text :=
  match settings.layout with
  | .expanded => (settings.banner.getD "").toList ++ Css.sheetText sheet
  | .compressed => settings.minifier (Css.sheetText sheet)

/-- The output of a stylesheet. -/
def ofSheet (settings : Settings) (name : String) (sheet : Stylesheet) : Output where
  name := name
  target := targetOf settings.suffix name
  text := textOf settings sheet

end Output

/-- The outputs of stylesheets, in their order. -/
def Sheets.outputs (sheets : Sheets) (settings : Settings) : List Output :=
  sheets.byName.entries.map fun (name, sheet) => .ofSheet settings name sheet

end CssPrune
