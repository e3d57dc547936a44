import CssPrune.OrderedMap
import CssPrune.Source

/-!
# Stylesheets

A stylesheet holds its rules by scope, and in a scope by selector list. Scopes and selector lists
stay where they were first inserted, and a selector list that comes again collects its
declarations there. A scope stays even when all its rules are removed.
-/

namespace CssPrune

/-- Where a rule stands: outside of all media rules, or in the media rules with a query. -/
inductive Scope where
  | topLevel
  | media (query : Text)
  deriving BEq, ReflBEq, LawfulBEq, DecidableEq, Repr

/-- The text that opens a scope, without its brace. -/
def Scope.text : Scope → Text
  | topLevel => []
  | media query => ['@', 'm', 'e', 'd', 'i', 'a', ' '] ++ query

/-- The declarations written for a selector list, text by text in the order of the source, and the
span of the selector list where it was inserted. -/
structure Rule where
  declarations : List Text
  span : Span
  deriving DecidableEq, Repr

/-- The rules of a scope by selector list. -/
abbrev RuleSet := OrderedMap Text Rule

/-- A rule as it is read: its scope and texts, and the span of its selector list. -/
structure Entry where
  scope : Scope
  selector : Text
  declarations : Text
  span : Span
  deriving DecidableEq, Repr

/-- The rules of a stylesheet by scope. -/
structure Stylesheet where
  scopes : OrderedMap Scope RuleSet := .empty
  deriving DecidableEq, Repr

namespace Stylesheet

/-- The stylesheet without scopes. -/
def empty : Stylesheet := {}

/-- The rules of a scope. -/
def ruleSet? (sheet : Stylesheet) (scope : Scope) : Option RuleSet :=
  sheet.scopes.get? scope

/-- Whether no scope holds a rule. -/
def isEmpty (sheet : Stylesheet) : Bool :=
  sheet.scopes.values.all (·.isEmpty)

/-- Adds declarations to a rule, or makes the rule. -/
def extendRule (declarations : Text) (span : Span) : Option Rule → Rule
  | none => ⟨[declarations], span⟩
  | some rule => { rule with declarations := rule.declarations ++ [declarations] }

/-- Inserts what was read of one rule. -/
def insert (sheet : Stylesheet) (entry : Entry) : Stylesheet :=
  ⟨sheet.scopes.update entry.scope fun rules? =>
    (rules?.getD .empty).update entry.selector (extendRule entry.declarations entry.span)⟩

/-- Inserts entries one after the other. -/
def insertAll (sheet : Stylesheet) (entries : List Entry) : Stylesheet :=
  entries.foldl insert sheet

/-- Keeps the rules whose selector list satisfies `keep`, and every scope. -/
def filter (keep : Text → Bool) (sheet : Stylesheet) : Stylesheet :=
  ⟨sheet.scopes.mapValues (·.filterKeys keep)⟩

/-- All rules with their selector lists, in order. -/
def rules (sheet : Stylesheet) : List (Text × Rule) :=
  sheet.scopes.values.flatMap (·.entries)

end Stylesheet

end CssPrune
