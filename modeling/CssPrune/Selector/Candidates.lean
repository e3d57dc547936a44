import CssPrune.Text.Basic

/-!
# Candidates

A selector of a list is looked up in two forms: `plain`, the selector without its pseudo classes,
and `simple`, what stands behind its last combinator. The ancestors that combinators name are not
looked at, so `.wrap .used` counts as used wherever `.used` is.
-/

namespace CssPrune.Selector

/-- The characters that combine simple selectors. -/
def combinators : List Char := [' ', '>', '+', '~']

/-- The text before the first colon that does not follow a backslash; `escaped` tells whether the
text follows one. -/
def beforeColon (escaped : Bool) : Text → Text
  | [] => []
  | c :: rest =>
    if c = ':' && !escaped then [] else c :: beforeColon (c = '\\') rest

/-- Drops each backslash that stands before `c`. -/
def unescape (c : Char) : Text → Text
  | [] => []
  | a :: rest =>
    if a = '\\' && rest.head? = some c then unescape c rest else a :: unescape c rest

/-- A selector without its pseudo classes and pseudo elements, and with its colons and slashes
unescaped. -/
def plain (selector : Text) : Text :=
  unescape '/' (unescape ':' (beforeColon false selector))

/-- Whether a selector combines simple selectors. -/
def isCombined (selector : Text) : Bool :=
  selector.any (combinators.contains ·)

/-- What stands behind the last combinator, for each combinator in turn. -/
def afterCombinators (order : List Char) (selector : Text) : Text :=
  order.foldl (fun text combinator => Text.afterLast combinator text) selector

/-- The last simple selector of a selector. -/
def simple (selector : Text) : Text :=
  if isCombined selector then Text.trim (afterCombinators combinators selector) else selector

/-- The selectors of a selector list. They keep the blanks around them. -/
def members (list : Text) : List Text :=
  list.splitOn ','

end CssPrune.Selector
