import CssPrune.Text.Basic

/-!
# Rule text

A rule is a run of characters other than braces and semicolons, opening braces, and everything up
to the next closing brace. The text is read from left to right in one of three states, and what
fits no rule is passed over: a semicolon or a closing brace in front of the opening brace drops
what stands before it, and so does an opening brace with nothing before it.

The declarations of a rule are not empty. A closing brace right behind a single opening brace ends
no rule; right behind several of them, the last one is the declarations.
-/

namespace CssPrune.Css

variable {α : Type}

/-- The two texts of a rule. -/
structure RawRule (α : Type) where
  selector : List α
  declarations : List α

/-- How far the reading of a rule has come. Lists that grow hold their last item first. -/
inductive RuleState (α : Type) where
  /-- In the text that may become a selector. -/
  | outside (run : List α)
  /-- Behind the opening braces: the last one, and whether there are others. -/
  | opening (selector : List α) (brace : α) (repeated : Bool)
  /-- In the declarations. -/
  | body (selector : List α) (declarations : List α)

namespace RuleState

/-- Reads one item, which may complete a rule. -/
def step (char : α → Char) (state : RuleState α) (a : α) : RuleState α × Option (RawRule α) :=
  match state with
  | outside [] =>
    if char a = '{' || char a = '}' || char a = ';' then (outside [], none) else (outside [a], none)
  | outside (b :: run) =>
    if char a = '{' then (opening (b :: run).reverse a false, none)
    else if char a = '}' || char a = ';' then (outside [], none)
    else (outside (a :: b :: run), none)
  | opening selector brace repeated =>
    if char a = '{' then (opening selector a true, none)
    else if char a = '}' then
      (outside [], if repeated then some ⟨selector, [brace]⟩ else none)
    else (body selector [a], none)
  | body selector declarations =>
    if char a = '}' then (outside [], some ⟨selector, declarations.reverse⟩)
    else (body selector (a :: declarations), none)

/-- The rules that are completed from a state on. -/
def rules (char : α → Char) (state : RuleState α) : List α → List (RawRule α)
  | [] => []
  | a :: rest =>
    match state.step char a with
    | (next, none) => next.rules char rest
    | (next, some rule) => rule :: next.rules char rest

end RuleState

/-- The rules of a text, in order. -/
def rawRules (char : α → Char) (items : List α) : List (RawRule α) :=
  (RuleState.outside []).rules char items

end CssPrune.Css
