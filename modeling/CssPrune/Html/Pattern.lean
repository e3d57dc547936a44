import CssPrune.Text.Basic

/-!
# Patterns

A pattern is a sequence of parts: literals and runs of characters of a class. A run takes as many
characters as it can and gives none back. That loses no match as long as no class of a run holds
the character that has to follow the run, which is so for every pattern of this library.

The matches of a pattern in a text are the leftmost ones that do not overlap, and each yields the
text that the middle parts of the pattern took.
-/

namespace CssPrune.Html

/-- A part of a pattern. -/
inductive Part where
  /-- Exactly this text. -/
  | literal (text : Text)
  /-- One character of a class. -/
  | oneOf (accepts : Char → Bool)
  /-- All characters of a class that follow, or none. -/
  | anyOf (accepts : Char → Bool)
  /-- All characters of a class that follow, and at least one. -/
  | someOf (accepts : Char → Bool)

namespace Part

/-- What the part takes from the front of a text, and what is left. -/
def read? : Part → Text → Option (Text × Text)
  | literal word, text => (Text.dropLiteral? id word text).map fun rest => (word, rest)
  | oneOf _, [] => none
  | oneOf accepts, c :: rest => if accepts c then some ([c], rest) else none
  | anyOf accepts, text => some (text.takeWhile accepts, text.dropWhile accepts)
  | someOf accepts, text =>
    if (text.takeWhile accepts).isEmpty then none
    else some (text.takeWhile accepts, text.dropWhile accepts)

/-- A part that never takes the empty text. -/
def consumes : Part → Bool
  | literal text => !text.isEmpty
  | oneOf _ => true
  | anyOf _ => false
  | someOf _ => true

/-- What parts take from the front of a text one after the other, and what is left. -/
def readAll? : List Part → Text → Option (Text × Text)
  | [], text => some ([], text)
  | part :: parts, text => do
    let (taken, rest) ← part.read? text
    let (more, rest) ← readAll? parts rest
    return (taken ++ more, rest)

/-- A literal that was dropped stands in front of the rest. -/
theorem append_of_dropLiteral? {word text rest : Text}
    (h : Text.dropLiteral? id word text = some rest) : text = word ++ rest := by
  induction word generalizing text with
  | nil => simpa [Text.dropLiteral?] using h
  | cons c word ih =>
    cases text with
    | nil => simp [Text.dropLiteral?] at h
    | cons a text =>
      simp only [Text.dropLiteral?, id_eq] at h
      split at h
      · rename_i ha
        rw [ha, ih h, List.cons_append]
      · simp at h

/-- What a part takes stands in front of the rest. -/
theorem append_of_read? {part : Part} {text taken rest : Text}
    (h : part.read? text = some (taken, rest)) : text = taken ++ rest := by
  cases part with
  | literal word =>
    simp only [read?, Option.map_eq_some_iff, Prod.mk.injEq] at h
    obtain ⟨_, hw, rfl, rfl⟩ := h
    exact append_of_dropLiteral? hw
  | oneOf accepts =>
    cases text with
    | nil => simp [read?] at h
    | cons c text =>
      simp only [read?] at h
      split at h
      · simp only [Option.some.injEq, Prod.mk.injEq] at h
        simp [← h.1, ← h.2]
      · simp at h
  | anyOf accepts =>
    simp only [read?, Option.some.injEq, Prod.mk.injEq] at h
    obtain ⟨rfl, rfl⟩ := h
    exact List.takeWhile_append_dropWhile.symm
  | someOf accepts =>
    simp only [read?] at h
    split at h
    · simp at h
    · simp only [Option.some.injEq, Prod.mk.injEq] at h
      obtain ⟨rfl, rfl⟩ := h
      exact List.takeWhile_append_dropWhile.symm

/-- A part that consumes takes at least one character. -/
theorem ne_nil_of_read? {part : Part} {text taken rest : Text} (hc : part.consumes = true)
    (h : part.read? text = some (taken, rest)) : taken ≠ [] := by
  cases part with
  | literal word =>
    simp only [read?, Option.map_eq_some_iff, Prod.mk.injEq] at h
    obtain ⟨_, _, rfl, _⟩ := h
    simpa [consumes] using hc
  | oneOf accepts =>
    cases text with
    | nil => simp [read?] at h
    | cons c text =>
      simp only [read?] at h
      split at h
      · simp only [Option.some.injEq, Prod.mk.injEq] at h
        simp [← h.1]
      · simp at h
  | anyOf accepts => simp [consumes] at hc
  | someOf accepts =>
    simp only [read?] at h
    split at h
    · simp at h
    · simp only [Option.some.injEq, Prod.mk.injEq] at h
      obtain ⟨rfl, _⟩ := h
      simp_all

/-- A list of parts is read by its first part and then by the others. -/
theorem readAll?_cons {part : Part} {parts : List Part} {text taken rest : Text}
    (h : readAll? (part :: parts) text = some (taken, rest)) :
    ∃ first more middle, part.read? text = some (first, middle) ∧
      readAll? parts middle = some (more, rest) ∧ taken = first ++ more := by
  simp only [readAll?, bind, Option.bind] at h
  split at h
  · simp at h
  · rename_i _ pair hp
    obtain ⟨first, middle⟩ := pair
    simp only at h
    split at h
    · simp at h
    · rename_i _ pair' hp'
      obtain ⟨more, rest'⟩ := pair'
      simp only [pure, Option.some.injEq, Prod.mk.injEq] at h
      obtain ⟨rfl, rfl⟩ := h
      exact ⟨first, more, middle, hp, hp', rfl⟩

/-- What a list of parts takes stands in front of the rest. -/
theorem append_of_readAll? {parts : List Part} {text taken rest : Text}
    (h : readAll? parts text = some (taken, rest)) : text = taken ++ rest := by
  induction parts generalizing text taken with
  | nil => simp_all [readAll?]
  | cons part parts ih =>
    obtain ⟨first, more, middle, hp, hm, rfl⟩ := readAll?_cons h
    rw [append_of_read? hp, ih hm, List.append_assoc]

/-- A list of parts of which one consumes takes at least one character. -/
theorem ne_nil_of_readAll? {parts : List Part} {text taken rest : Text}
    (hc : parts.any consumes = true) (h : readAll? parts text = some (taken, rest)) :
    taken ≠ [] := by
  induction parts generalizing text taken with
  | nil => simp at hc
  | cons part parts ih =>
    obtain ⟨first, more, middle, hp, hm, rfl⟩ := readAll?_cons h
    simp only [List.any_cons, Bool.or_eq_true] at hc
    rcases hc with hc | hc
    · simp [ne_nil_of_read? hc hp]
    · simp [ih hc hm]

end Part

/-- The parts before, in and after the text that a match yields. A part before it takes something,
so that a match is never empty. -/
structure Pattern where
  before : List Part
  captured : List Part
  after : List Part
  consumes : before.any Part.consumes = true := by decide

namespace Pattern

/-- Matches at the front of a text: the text captured, and what is left. -/
def read? (pattern : Pattern) (text : Text) : Option (Text × Text) := do
  let (_, rest) ← Part.readAll? pattern.before text
  let (found, rest) ← Part.readAll? pattern.captured rest
  let (_, rest) ← Part.readAll? pattern.after rest
  return (found, rest)

/-- A match of a pattern leaves a shorter text. -/
theorem length_lt_of_read? {pattern : Pattern} {text found rest : Text}
    (h : pattern.read? text = some (found, rest)) : rest.length < text.length := by
  simp only [read?, bind, Option.bind_eq_some_iff, pure, Option.some.injEq, Prod.mk.injEq] at h
  obtain ⟨⟨lead, r₁⟩, h₁, ⟨middle, r₂⟩, h₂, ⟨trail, r₃⟩, h₃, _, rfl⟩ := h
  have hne := Part.ne_nil_of_readAll? pattern.consumes h₁
  simp only at h₂ h₃ ⊢
  rw [Part.append_of_readAll? h₁, Part.append_of_readAll? h₂, Part.append_of_readAll? h₃]
  have : 0 < lead.length := List.length_pos_iff.2 hne
  simp only [List.length_append]
  omega

/-- What the matches in a text capture: a match is looked for at each place in turn, and the
search goes on behind it. -/
def captures (pattern : Pattern) (text : Text) : List Text :=
  match text with
  | [] => []
  | c :: rest =>
    match _h : pattern.read? (c :: rest) with
    | some (found, rest) => found :: pattern.captures rest
    | none => pattern.captures rest
termination_by text.length
decreasing_by
  · exact length_lt_of_read? _h
  · simp

end Pattern

end CssPrune.Html
