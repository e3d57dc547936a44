import CssPrune.Css.Stylesheet

/-!
# Printing a stylesheet

Each rule takes three lines, and the rules of a media rule are indented by four spaces.
Declarations are joined by semicolons, and one is added at their end if it is missing there. The
declarations of a rule can hold an opening brace whose partner ended the rule when it was read; it
is closed again. A scope without rules is left out.
-/

namespace CssPrune.Css

/-- The width of one level of indentation. -/
def indentWidth : Nat := 4

/-- The blanks at the start of a line. -/
def indentText (width : Nat) : Text :=
  List.replicate width ' '

/-- Ends a text with a semicolon. -/
def endStatement (text : Text) : Text :=
  if text.getLast? = some ';' then text else text ++ [';']

/-- The closing braces that a text lacks. -/
def missingBraces (text : Text) : Text :=
  List.replicate (text.count '{' - text.count '}') '}'

/-- The declarations of a rule as one text. -/
def declarationsText (declarations : List Text) : Text :=
  let joined := Text.trim ([';'].intercalate declarations)
  endStatement joined ++ missingBraces joined

/-- A rule on three lines. -/
def ruleText (indent : Nat) (selector : Text) (rule : Rule) : Text :=
  indentText indent ++ selector ++ [' ', '{', '\n']
    ++ indentText (indent + indentWidth) ++ declarationsText rule.declarations ++ ['\n']
    ++ indentText indent ++ ['}', '\n']

/-- The rules of a scope one after the other. -/
def ruleSetText (indent : Nat) (rules : RuleSet) : Text :=
  rules.entries.flatMap fun (selector, rule) => ruleText indent selector rule

/-- A scope with its rules. -/
def scopeText (scope : Scope) (rules : RuleSet) : Text :=
  if rules.isEmpty then []
  else
    match scope with
    | .topLevel => ruleSetText 0 rules
    | .media _ =>
      scope.text ++ [' ', '{', '\n'] ++ ruleSetText indentWidth rules ++ ['}', '\n', '\n']

/-- A stylesheet scope by scope. -/
def sheetText (sheet : Stylesheet) : Text :=
  sheet.scopes.entries.flatMap fun (scope, rules) => scopeText scope rules

end CssPrune.Css
