import CssPrune.Html.References
import CssPrune.Selector.Candidates

/-!
# The live set

The selectors that count as used: what the HTML refers to, and a whitelist. A selector list is
live as soon as one of its members is.
-/

namespace CssPrune

/-- The selectors that count as used. -/
structure LiveSet where
  references : References
  whitelist : List Text
  deriving DecidableEq, Repr

namespace LiveSet

/-- Whether a selector counts as used, taken by its text. -/
def contains (live : LiveSet) (selector : Text) : Bool :=
  selector == universal || live.references.contains selector || live.whitelist.contains selector

/-- Whether a member of a selector list is live: it, or its last simple selector. -/
def isLiveMember (live : LiveSet) (member : Text) : Bool :=
  live.contains (Selector.plain member)
    || live.contains (Selector.simple (Selector.plain member))

/-- Whether a selector list is live: some member is. -/
def isLive (live : LiveSet) (list : Text) : Bool :=
  (Selector.members list).any live.isLiveMember

end LiveSet

end CssPrune
