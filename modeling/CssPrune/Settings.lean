import CssPrune.Css.Minifier

/-!
# Settings

How a run tells used selectors from unused ones, prints, and reports.
-/

namespace CssPrune

/-- The two forms of output. -/
inductive Layout where
  /-- Each rule on three lines, behind the banner. -/
  | expanded
  /-- The expanded text without a banner, minified. -/
  | compressed
  deriving DecidableEq, Repr

/-- The settings of a run. -/
structure Settings where
  layout : Layout := .expanded
  /-- Selectors that count as used, compared by their text. -/
  whitelist : List String := []
  /-- The text put before the extension of the names that are written to. Without one, a
  stylesheet is written to its own name. -/
  suffix : Option String := none
  /-- The text in front of expanded output. -/
  banner : Option String := none
  /-- What makes compressed output of an expanded one. -/
  minifier : Text → Text := Css.minify
  /-- Whether events are dropped. -/
  quiet : Bool := false
  /-- Whether removed rules are reported. -/
  verbose : Bool := false

end CssPrune
