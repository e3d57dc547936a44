import CssPrune.Text.Basic

/-!
# References

What the HTML of a site refers to, in the notation of selectors: a tag as `name`, a class as
`.name`, an id as `#name`, a data attribute as `[data-name]` or `[data-name="value"]`. The tokens
keep the order in which they were first seen.
-/

namespace CssPrune

/-- The universal selector, which every document refers to. -/
def universal : Text := ['*']

/-- The tokens that the scanned documents refer to, in the order of their first occurrence. -/
structure References where
  tokens : List Text := [universal]
  deriving DecidableEq, Repr

namespace References

/-- Before any document there is the universal selector alone. -/
def initial : References := {}

/-- Whether a token was referred to. -/
def contains (references : References) (token : Text) : Bool :=
  references.tokens.contains token

/-- Adds a token as the last one, unless it is there. -/
def insert (references : References) (token : Text) : References :=
  if references.contains token then references else ⟨references.tokens ++ [token]⟩

/-- Adds tokens one after the other. -/
def insertAll (references : References) (tokens : List Text) : References :=
  tokens.foldl insert references

/-- The number of tokens. -/
def size (references : References) : Nat :=
  references.tokens.length

/-- Whether there is no token. The universal selector stays, so this is never so in a run. -/
def isEmpty (references : References) : Bool :=
  references.tokens.isEmpty

/-- A selector is found exactly if it is one of the tokens. -/
@[simp]
theorem contains_iff_mem {references : References} {token : Text} :
    references.contains token = true ↔ token ∈ references.tokens := by
  simp [contains]

/-- An inserted token is added to those that are there. -/
theorem mem_insert {references : References} {token other : Text} :
    other ∈ (references.insert token).tokens ↔ other ∈ references.tokens ∨ other = token := by
  unfold insert
  split
  · rename_i h
    rw [contains_iff_mem] at h
    constructor
    · exact Or.inl
    · rintro (hm | rfl)
      · exact hm
      · exact h
  · simp

/-- Inserted tokens are added to those that are there. -/
theorem mem_insertAll {references : References} {tokens : List Text} {other : Text} :
    other ∈ (references.insertAll tokens).tokens ↔
      other ∈ references.tokens ∨ other ∈ tokens := by
  induction tokens generalizing references with
  | nil => simp [insertAll]
  | cons token tokens ih =>
    rw [insertAll, List.foldl_cons, ← insertAll, ih, mem_insert, List.mem_cons, or_assoc]

end References

end CssPrune
