import CssPrune.Html.Pattern
import CssPrune.Proofs.Words

/-!
# What patterns capture

The search for a pattern goes from place to place: behind a match, or one character on. What it
captures from a place that it reaches is among what it captures in all (`Pattern.Reaches.captures`).
For a pattern that matches an opening and a text in double quotes the search of a document goes from
quote to quote (`Pattern.Quotes`): a stretch in front of a quote that ends in an opening takes the
next quoted text with it, and any other stretch does not.
-/

namespace CssPrune.Html

/-! ## Parts -/

namespace Part

/-- A part takes a text, wherever it stands. -/
def Takes : Part → Text → Prop
  | literal word, taken => taken = word
  | oneOf accepts, taken => ∃ c, accepts c = true ∧ taken = [c]
  | anyOf accepts, taken => ∀ c ∈ taken, accepts c = true
  | someOf accepts, taken => taken ≠ [] ∧ ∀ c ∈ taken, accepts c = true

/-- A part would take a character more. -/
def goesOn : Part → Char → Bool
  | literal _, _ => false
  | oneOf _, _ => false
  | anyOf accepts, c => accepts c
  | someOf accepts, c => accepts c

variable {part : Part} {parts : List Part} {text taken more middle rest : Text}

/-- What a part reads it can take. -/
lemma takes_of_read? (h : part.read? text = some (taken, rest)) : part.Takes taken := by
  cases part with
  | literal word =>
    rw [read?, Option.map_eq_some_iff] at h
    obtain ⟨_, -, heq⟩ := h
    exact (congrArg Prod.fst heq).symm
  | oneOf accepts =>
    cases text with
    | nil => cases h
    | cons c text =>
      rw [read?] at h
      split at h
      · rename_i hc
        cases h
        exact ⟨c, hc, rfl⟩
      · cases h
  | anyOf accepts =>
    cases h
    exact fun c hc => List.mem_takeWhile_imp hc
  | someOf accepts =>
    rw [read?] at h
    split at h
    · cases h
    · rename_i hne
      cases h
      exact ⟨by simpa using hne, fun c hc => List.mem_takeWhile_imp hc⟩

/-- A run of characters ends where one is not accepted. -/
lemma takeWhile_dropWhile_append {accepts : Char → Bool} (htaken : ∀ c ∈ taken, accepts c = true)
    (hrest : ∀ c ∈ rest.head?, accepts c = false) :
    (taken ++ rest).takeWhile accepts = taken ∧ (taken ++ rest).dropWhile accepts = rest := by
  rw [List.takeWhile_append_of_pos htaken, List.dropWhile_append_of_pos htaken]
  cases rest with
  | nil => simp
  | cons c rest =>
    have hc : ¬ accepts c = true := by simp [hrest c rfl]
    rw [List.takeWhile_cons_of_neg hc, List.dropWhile_cons_of_neg hc, List.append_nil]
    exact ⟨rfl, rfl⟩

/-- A part reads what it takes up to where it stops. -/
lemma read?_append (h : part.Takes taken) (hstop : ∀ c ∈ rest.head?, part.goesOn c = false) :
    part.read? (taken ++ rest) = some (taken, rest) := by
  cases part with
  | literal word =>
    obtain rfl : taken = word := h
    rw [read?, Text.dropLiteral?_eq_some_iff.2 rfl]
    rfl
  | oneOf accepts =>
    obtain ⟨c, hc, rfl⟩ := h
    rw [List.singleton_append, read?, if_pos hc]
  | anyOf accepts =>
    obtain ⟨htake, hdrop⟩ := takeWhile_dropWhile_append h hstop
    rw [read?, htake, hdrop]
  | someOf accepts =>
    obtain ⟨htake, hdrop⟩ := takeWhile_dropWhile_append h.2 hstop
    rw [read?, htake, hdrop, if_neg (by simpa using h.1)]

/-- A part reads what it can take if what follows does not let it go on. -/
lemma readAll?_cons_append (h : part.Takes taken)
    (hstop : ∀ c ∈ middle.head?, part.goesOn c = false)
    (hmore : readAll? parts middle = some (more, rest)) :
    readAll? (part :: parts) (taken ++ middle) = some (taken ++ more, rest) := by
  rw [readAll?, read?_append h hstop]
  show (readAll? parts middle >>= _) = _
  rw [hmore]
  rfl

/-- What a list of parts reads is what its first part takes and what the others read. -/
lemma exists_of_readAll?_cons (h : readAll? (part :: parts) text = some (taken, rest)) :
    ∃ first more middle, part.Takes first ∧ readAll? parts middle = some (more, rest) ∧
      text = first ++ middle ∧ taken = first ++ more := by
  obtain ⟨first, more, middle, hfirst, hmore, htaken⟩ := readAll?_cons h
  exact ⟨first, more, middle, takes_of_read? hfirst, hmore, append_of_read? hfirst, htaken⟩

end Part

/-! ## Searches -/

namespace Pattern

open Text (doubleQuote)

variable {pattern : Pattern}

/-- A match is what the three lists of parts read one behind the other. -/
lemma read?_of_readAll? {text lead middle found last trail rest : Text}
    (hbefore : Part.readAll? pattern.before text = some (lead, middle))
    (hcaptured : Part.readAll? pattern.captured middle = some (found, last))
    (hafter : Part.readAll? pattern.after last = some (trail, rest)) :
    pattern.read? text = some (found, rest) := by
  simp only [read?, hbefore, hcaptured, hafter, bind, Option.bind_some, pure]

/-- Each match is read by the three lists of parts one behind the other. -/
lemma exists_of_read? {text found rest : Text} (h : pattern.read? text = some (found, rest)) :
    ∃ lead middle last trail, Part.readAll? pattern.before text = some (lead, middle) ∧
      Part.readAll? pattern.captured middle = some (found, last) ∧
      Part.readAll? pattern.after last = some (trail, rest) := by
  simp only [read?, bind, Option.bind_eq_some_iff, pure, Option.some.injEq, Prod.mk.injEq] at h
  obtain ⟨⟨lead, middle⟩, hbefore, ⟨_, last⟩, hcaptured, ⟨trail, _⟩, hafter, rfl, rfl⟩ := h
  exact ⟨lead, middle, last, trail, hbefore, hcaptured, hafter⟩

/-- A search takes a match and goes on behind it. -/
lemma captures_of_read? {text found rest : Text} (h : pattern.read? text = some (found, rest)) :
    pattern.captures text = found :: pattern.captures rest := by
  cases text with
  | nil =>
    have := length_lt_of_read? h
    simp at this
  | cons c text =>
    rw [captures]
    split
    · rename_i hread
      rw [h] at hread
      cases hread
      rfl
    · rename_i hread
      rw [h] at hread
      cases hread

/-- A search passes a character at which nothing matches. -/
lemma captures_cons {c : Char} {text : Text} (h : pattern.read? (c :: text) = none) :
    pattern.captures (c :: text) = pattern.captures text := by
  rw [captures]
  split
  · rename_i hread
    rw [h] at hread
    cases hread
  · rfl

/-- What is captured stands in a match. -/
lemma exists_of_mem_captures {text found : Text} (h : found ∈ pattern.captures text) :
    ∃ place rest, pattern.read? place = some (found, rest) := by
  fun_induction captures pattern text with
  | case1 => cases h
  | case2 c text first rest hread ih =>
    rcases List.mem_cons.1 h with rfl | h
    · exact ⟨c :: text, rest, hread⟩
    · exact ih h
  | case3 c text hread ih => exact ih h

/-- No match starts in a stretch of a text. -/
def Silent (pattern : Pattern) (stretch behind : Text) : Prop :=
  ∀ front rest, stretch = front ++ rest → rest ≠ [] → pattern.read? (rest ++ behind) = none

/-- A silent stretch is silent from its second character on. -/
lemma Silent.of_cons {c : Char} {stretch behind : Text} (h : pattern.Silent (c :: stretch) behind) :
    pattern.Silent stretch behind :=
  fun front rest heq hne => h (c :: front) rest (congrArg (c :: ·) heq) hne

/-- A stretch is passed if no match starts in it. -/
lemma captures_append {stretch behind : Text} (h : pattern.Silent stretch behind) :
    pattern.captures (stretch ++ behind) = pattern.captures behind := by
  induction stretch with
  | nil => rfl
  | cons c stretch ih =>
    exact (captures_cons (h [] (c :: stretch) rfl (List.cons_ne_nil _ _))).trans (ih h.of_cons)

/-- The search in a text looks for a match in front of the second text. -/
inductive Reaches (pattern : Pattern) : Text → Text → Prop where
  | here {text} : Reaches pattern text text
  | skip {c text behind} : pattern.read? (c :: text) = none → Reaches pattern text behind →
    Reaches pattern (c :: text) behind
  | jump {text found rest behind} : pattern.read? text = some (found, rest) →
    Reaches pattern rest behind → Reaches pattern text behind

namespace Reaches

/-- A search that reaches a text reaches what is reached from there. -/
lemma trans {first second third : Text} (h : pattern.Reaches first second)
    (hrest : pattern.Reaches second third) : pattern.Reaches first third := by
  induction h with
  | here => exact hrest
  | skip hnone _ ih => exact .skip hnone (ih hrest)
  | jump hread _ ih => exact .jump hread (ih hrest)

/-- What is captured from a place that is reached is captured. -/
lemma captures {text behind : Text} (h : pattern.Reaches text behind) :
    pattern.captures behind ⊆ pattern.captures text := by
  induction h with
  | here => exact List.Subset.refl _
  | skip hnone _ ih =>
    rw [captures_cons hnone]
    exact ih
  | jump hread _ ih =>
    rw [captures_of_read? hread]
    exact List.subset_cons_of_subset _ ih

/-- The search comes to the end of a stretch if no match starts in it. -/
lemma pass {stretch behind : Text} (h : pattern.Silent stretch behind) :
    pattern.Reaches (stretch ++ behind) behind := by
  induction stretch with
  | nil => exact .here
  | cons c stretch ih => exact .skip (h [] (c :: stretch) rfl (List.cons_ne_nil _ _)) (ih h.of_cons)

end Reaches

/-- A search captures what it reads at a text that it reaches. -/
lemma mem_captures {text behind found rest : Text} (h : pattern.Reaches text behind)
    (hread : pattern.read? behind = some (found, rest)) : found ∈ pattern.captures text := by
  apply h.captures
  rw [captures_of_read? hread]
  exact List.mem_cons_self

/-- The search comes to every occurrence of a character that no match holds behind its first one. -/
lemma reaches_cons {c : Char}
    (h : ∀ {text found rest}, pattern.read? text = some (found, rest) →
      ∃ a taken, text = a :: (taken ++ rest) ∧ c ∉ taken)
    (front rest : Text) : pattern.Reaches (front ++ c :: rest) (c :: rest) := by
  cases front with
  | nil => exact .here
  | cons a front =>
    cases hread : pattern.read? (a :: front ++ c :: rest) with
    | none => exact .skip hread (reaches_cons h front rest)
    | some pair =>
      obtain ⟨found, behind⟩ := pair
      refine .jump hread ?_
      obtain ⟨_, taken, heq, htaken⟩ := h hread
      rcases List.append_eq_append_iff.1 (List.cons.inj heq).2 with
        ⟨middle, rfl, hmiddle⟩ | ⟨middle, hmiddle, rfl⟩
      · cases middle with
        | nil =>
          rw [List.nil_append] at hmiddle
          rw [← hmiddle]
          exact .here
        | cons b middle =>
          -- the match would hold the character
          exact absurd (by simp [(List.cons.inj hmiddle).1]) htaken
      · exact reaches_cons h middle rest
termination_by front.length
decreasing_by
  · simp
  · rw [hmiddle, List.length_cons, List.length_append]
    omega

/-! ## Quoted texts -/

/-- A pattern matches an opening and a text in double quotes, and captures what `capture` makes of
the two. No quote is in an opening. -/
structure Quotes (pattern : Pattern) (opens : Text → Prop) (capture : Text → Text → Text) :
    Prop where
  opening : ∀ {start}, opens start → start ≠ [] ∧ doubleQuote ∉ start
  read? : ∀ {start quoted} (rest : Text), opens start → doubleQuote ∉ quoted →
    pattern.read? (start ++ doubleQuote :: (quoted ++ doubleQuote :: rest)) =
      some (capture start quoted, rest)
  of_read? : ∀ {text found rest}, pattern.read? text = some (found, rest) →
    ∃ start quoted, opens start ∧ doubleQuote ∉ quoted ∧ found = capture start quoted ∧
      text = start ++ doubleQuote :: (quoted ++ doubleQuote :: rest)

namespace Quotes

variable {opens : Text → Prop} {capture : Text → Text → Text}

/-- The opening of a match in front of a quote is all that stands in front of that quote. -/
lemma opens_of_read? (h : pattern.Quotes opens capture) {stretch behind : Text}
    (hstretch : doubleQuote ∉ stretch)
    (hread : pattern.read? (stretch ++ doubleQuote :: behind) ≠ none) : opens stretch := by
  obtain ⟨⟨found, rest⟩, hread⟩ := Option.ne_none_iff_exists'.1 hread
  obtain ⟨start, quoted, hopens, -, -, heq⟩ := h.of_read? hread
  obtain ⟨rfl, -⟩ := Text.append_cons_inj hstretch (h.opening hopens).2 heq
  exact hopens

/-- Without quotes there is no match. -/
lemma captures_eq_nil (h : pattern.Quotes opens capture) {text : Text}
    (htext : doubleQuote ∉ text) :
    pattern.captures text = [] := by
  have hsilent : pattern.Silent text [] := by
    rintro front rest rfl -
    by_contra hread
    obtain ⟨⟨found, others⟩, hread⟩ := Option.ne_none_iff_exists'.1 hread
    obtain ⟨start, quoted, -, -, -, heq⟩ := h.of_read? hread
    rw [List.append_nil] at heq
    exact htext (List.mem_append_right front (heq ▸ by simp))
  have hnone := captures_append hsilent
  rw [List.append_nil] at hnone
  rw [hnone, captures]

/-- No match starts in a stretch that does not end in an opening, or at the quote behind it. -/
lemma silent_of_not_opens (h : pattern.Quotes opens capture) {stretch : Text}
    (hstretch : doubleQuote ∉ stretch) (hnot : ∀ start, start <:+ stretch → ¬ opens start)
    (behind : Text) : pattern.Silent (stretch ++ [doubleQuote]) behind := by
  intro front rest heq hne
  obtain ⟨init, last, rfl⟩ := (List.eq_nil_or_concat' rest).resolve_left hne
  rw [← List.append_assoc] at heq
  obtain ⟨hsplit, hlast⟩ := List.append_inj' heq rfl
  obtain rfl : doubleQuote = last := List.singleton_inj.1 hlast
  have hsuffix : init <:+ stretch := ⟨front, hsplit.symm⟩
  -- the opening of a match that started here would be all that is left of the stretch
  by_contra hread
  rw [List.append_assoc] at hread
  exact hnot init hsuffix (h.opens_of_read? (fun hmem => hstretch (hsuffix.subset hmem)) hread)

/-- A quote in front of which nothing opens is passed. -/
lemma reaches_of_not_opens (h : pattern.Quotes opens capture) {stretch : Text}
    (hstretch : doubleQuote ∉ stretch) (hnot : ∀ start, start <:+ stretch → ¬ opens start)
    (behind : Text) : pattern.Reaches (stretch ++ doubleQuote :: behind) behind := by
  rw [List.append_cons]
  exact Reaches.pass (h.silent_of_not_opens hstretch hnot behind)

/-- A stretch that does not end in an opening yields nothing. -/
lemma captures_of_not_opens (h : pattern.Quotes opens capture) {stretch : Text}
    (hstretch : doubleQuote ∉ stretch) (hnot : ∀ start, start <:+ stretch → ¬ opens start)
    (behind : Text) :
    pattern.captures (stretch ++ doubleQuote :: behind) = pattern.captures behind := by
  rw [List.append_cons]
  exact captures_append (h.silent_of_not_opens hstretch hnot behind)

section Opens

variable {lead start quoted : Text}

/-- No match starts in front of an opening with which a stretch ends, if none stands around it. -/
lemma silent_opening (h : pattern.Quotes opens capture) (hstretch : doubleQuote ∉ lead ++ start)
    (hlead : ∀ front rest, lead = front ++ rest → rest ≠ [] → ¬ opens (rest ++ start))
    (behind : Text) : pattern.Silent lead (start ++ doubleQuote :: behind) := by
  rintro front rest rfl hne
  by_contra hread
  rw [← List.append_assoc] at hread
  refine hlead front rest rfl hne (h.opens_of_read? (fun hmem => hstretch ?_) hread)
  rw [List.append_assoc]
  exact List.mem_append_right front hmem

/-- A stretch that ends in an opening yields the quoted text behind it. -/
lemma captures_of_opens (h : pattern.Quotes opens capture) (hstretch : doubleQuote ∉ lead ++ start)
    (hlead : ∀ front rest, lead = front ++ rest → rest ≠ [] → ¬ opens (rest ++ start))
    (hopens : opens start) (hquoted : doubleQuote ∉ quoted) (behind : Text) :
    pattern.captures (lead ++ (start ++ doubleQuote :: (quoted ++ doubleQuote :: behind))) =
      capture start quoted :: pattern.captures behind := by
  rw [captures_append (h.silent_opening hstretch hlead _),
    captures_of_read? (h.read? behind hopens hquoted)]

/-- A stretch that ends in an opening takes the quoted text behind it with it. -/
lemma reaches_of_opens (h : pattern.Quotes opens capture) (hstretch : doubleQuote ∉ lead ++ start)
    (hlead : ∀ front rest, lead = front ++ rest → rest ≠ [] → ¬ opens (rest ++ start))
    (hopens : opens start) (hquoted : doubleQuote ∉ quoted) (behind : Text) :
    pattern.Reaches (lead ++ (start ++ doubleQuote :: (quoted ++ doubleQuote :: behind))) behind :=
  (Reaches.pass (h.silent_opening hstretch hlead _)).trans
    (.jump (h.read? behind hopens hquoted) .here)

/-- A quote in front of which something opens captures the quoted text. -/
lemma mem_captures (h : pattern.Quotes opens capture) (hstretch : doubleQuote ∉ lead ++ start)
    (hlead : ∀ front rest, lead = front ++ rest → rest ≠ [] → ¬ opens (rest ++ start))
    (hopens : opens start) (hquoted : doubleQuote ∉ quoted) (behind : Text) :
    capture start quoted ∈ pattern.captures
      (lead ++ (start ++ doubleQuote :: (quoted ++ doubleQuote :: behind))) :=
  Pattern.mem_captures (Reaches.pass (h.silent_opening hstretch hlead _))
    (h.read? behind hopens hquoted)

end Opens

end Quotes

end Pattern

end CssPrune.Html
