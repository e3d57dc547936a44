import CssPrune.Proofs.Expressions
import CssPrune.Proofs.RuleScan

/-!
# Rules as matches

The rules of a text are the matches of `}*([^{};]+){+([^}]+)}`, one after the other, and the two
texts of a rule are what the groups capture (`rawRules_eq_findings`).

`Extracts` takes a text apart as the scan and the search both do: at a run of plain characters and
at what ends it. Every text can be taken apart in this way (`exists_extracts`), and what is taken
out of it are the rules of the scan (`Extracts.rawRules_eq`) as well as the matches of the search
(`Extracts.groups_eq`).
-/

namespace CssPrune.Css

open Expression

/-! ## The expression -/

/-- The declarations and the brace behind them. -/
def declarationsExpression : Expression :=
  .followedBy (.group (.someOf (· != '}'))) (.one (· == '}'))

/-- What follows a selector list. -/
def bodyExpression : Expression :=
  .followedBy (.someOf (· == '{')) declarationsExpression

/-- A rule. -/
def ruleExpression : Expression :=
  .followedBy (.group (.someOf fun c => decide (IsPlain c))) bodyExpression

/-- The expression `}*([^{};]+){+([^}]+)}`. -/
def ruleNeedle : Needle where
  expression := .followedBy (.run (· == '}') true) ruleExpression
  consumes := rfl

/-! ## How a text is taken apart -/

section Items

variable {α : Type} {char : α → Char}

/-- The rules that can be taken out of a text. -/
inductive Extracts (char : α → Char) : List α → List (RawRule α) → Prop where
  /-- Without a closing brace no rule ends. -/
  | unclosed {items : List α} (hopen : ∀ a ∈ items, char a ≠ '}') : Extracts char items []
  /-- An opening brace with nothing in front of it. -/
  | brace {brace : α} {rest : List α} {rules : List (RawRule α)} (hbrace : char brace = '{')
      (behind : Extracts char rest rules) : Extracts char (brace :: rest) rules
  /-- What ends before an opening brace comes. -/
  | statement {run : List α} {last : α} {rest : List α} {rules : List (RawRule α)}
      (hrun : ∀ a ∈ run, IsPlain (char a)) (hlast : char last = '}' ∨ char last = ';')
      (behind : Extracts char rest rules) : Extracts char (run ++ last :: rest) rules
  /-- A selector list without declarations. -/
  | empty {run : List α} {brace close : α} {rest : List α} {rules : List (RawRule α)}
      (hne : run ≠ []) (hrun : ∀ a ∈ run, IsPlain (char a)) (hbrace : char brace = '{')
      (hclose : char close = '}') (behind : Extracts char rest rules) :
      Extracts char (run ++ brace :: close :: rest) rules
  /-- A selector list with several braces, the last of which takes the place of declarations. -/
  | braces {run : List α} {brace : α} {more : List α} {last close : α} {rest : List α}
      {rules : List (RawRule α)} (hne : run ≠ []) (hrun : ∀ a ∈ run, IsPlain (char a))
      (hbrace : char brace = '{') (hmore : ∀ a ∈ more ++ [last], char a = '{')
      (hclose : char close = '}') (behind : Extracts char rest rules) :
      Extracts char (run ++ brace :: (more ++ last :: close :: rest)) (⟨run, [last]⟩ :: rules)
  /-- A selector list with declarations. -/
  | rule {run : List α} {brace : α} {more declarations : List α} {close : α} {rest : List α}
      {rules : List (RawRule α)} (hne : run ≠ []) (hrun : ∀ a ∈ run, IsPlain (char a))
      (hbrace : char brace = '{') (hmore : ∀ a ∈ more, char a = '{') (hsome : declarations ≠ [])
      (hfirst : ∀ a ∈ declarations.head?, char a ≠ '{') (hbody : ∀ a ∈ declarations, char a ≠ '}')
      (hclose : char close = '}') (behind : Extracts char rest rules) :
      Extracts char (run ++ brace :: (more ++ (declarations ++ close :: rest)))
        (⟨run, declarations⟩ :: rules)

/-- A text is a run of items of one kind and what begins with another one. -/
lemma exists_run (char : α → Char) (accepts : Char → Bool) (items : List α) :
    ∃ run rest, items = run ++ rest ∧ (∀ a ∈ run, accepts (char a) = true) ∧
      ∀ a ∈ rest.head?, accepts (char a) = false := by
  let p := fun a => accepts (char a)
  refine ⟨items.takeWhile p, items.dropWhile p, List.takeWhile_append_dropWhile.symm,
    fun a ha => ?_, fun a ha => ?_⟩
  · exact List.mem_takeWhile_imp (p := p) ha
  · have hhead := List.head?_dropWhile_not p items
    rw [Option.mem_def.1 ha] at hhead
    simpa using hhead

/-- What follows a run of plain items and an opening brace. -/
lemma exists_extracts_opened {run : List α} {brace : α} {behind : List α} (hne : run ≠ [])
    (hrun : ∀ a ∈ run, IsPlain (char a)) (hbrace : char brace = '{')
    (ih : ∀ rest : List α, rest.length < (run ++ brace :: behind).length →
      ∃ rules, Extracts char rest rules) :
    ∃ rules, Extracts char (run ++ brace :: behind) rules := by
  obtain ⟨more, tail, rfl, hmore, htail⟩ := exists_run char (· == '{') behind
  obtain ⟨declarations, back, rfl, hbody, hback⟩ := exists_run char (· != '}') tail
  have hmore : ∀ a ∈ more, char a = '{' := by simpa using hmore
  have hbody : ∀ a ∈ declarations, char a ≠ '}' := by simpa using hbody
  cases back with
  | nil =>
    refine ⟨[], .unclosed fun a ha => ?_⟩
    simp only [List.append_nil, List.mem_append, List.mem_cons] at ha
    rcases ha with ha | rfl | ha | ha
    · exact (hrun a ha).2.1
    · simp [hbrace]
    · simp [hmore a ha]
    · exact hbody a ha
  | cons close rest =>
    have hclose : char close = '}' := by simpa using hback close rfl
    obtain ⟨rules, hrules⟩ := ih rest (by simp; omega)
    by_cases hsome : declarations = []
    · subst hsome
      rcases List.eq_nil_or_concat' more with rfl | ⟨init, last, rfl⟩
      · exact ⟨rules, .empty hne hrun hbrace hclose hrules⟩
      · refine ⟨⟨run, [last]⟩ :: rules, ?_⟩
        have hextracts := Extracts.braces hne hrun hbrace hmore hclose hrules
        simpa using hextracts
    · have hfirst : ∀ a ∈ declarations.head?, char a ≠ '{' := by
        intro a ha
        have hhead := htail a (by rw [List.head?_append, Option.mem_def.1 ha]; rfl)
        simpa using hhead
      exact ⟨_, .rule hne hrun hbrace hmore hsome hfirst hbody hclose hrules⟩

/-- Every text can be taken apart. -/
lemma exists_extracts (char : α → Char) (items : List α) : ∃ rules, Extracts char items rules := by
  induction hn : items.length using Nat.strong_induction_on generalizing items with
  | _ n ih =>
    subst hn
    have ih : ∀ rest : List α, rest.length < items.length → ∃ rules, Extracts char rest rules :=
      fun rest hlt => ih _ hlt rest rfl
    obtain ⟨run, rest, rfl, hrun, hrest⟩ := exists_run char (fun c => decide (IsPlain c)) items
    have hrun : ∀ a ∈ run, IsPlain (char a) := by simpa using hrun
    cases rest with
    | nil =>
      refine ⟨[], .unclosed fun a ha => ?_⟩
      exact (hrun a (by simpa using ha)).2.1
    | cons a rest =>
      have hmark : char a = '{' ∨ char a = '}' ∨ char a = ';' :=
        not_isPlain_iff.1 (by simpa using hrest a rfl)
      rcases hmark with hbrace | hlast
      · by_cases hne : run = []
        · subst hne
          obtain ⟨rules, hrules⟩ := ih rest (by simp)
          exact ⟨rules, .brace hbrace hrules⟩
        · exact exists_extracts_opened hne hrun hbrace ih
      · obtain ⟨rules, hrules⟩ := ih rest (by simp; omega)
        exact ⟨rules, .statement hrun hlast hrules⟩

/-! ## What the scan takes out -/

/-- The scan takes out the rules that a text is taken apart into. -/
theorem Extracts.rawRules_eq {items : List α} {rules : List (RawRule α)}
    (h : Extracts char items rules) : rawRules char items = rules := by
  induction h with
  | unclosed hopen => exact rules_eq_nil_of_no_close hopen _
  | brace hbrace _ ih =>
    rw [rawRules_cons_of_not_plain fun h => h.1 hbrace]
    exact ih
  | statement hrun hlast _ ih =>
    rw [rawRules, rules_outside_end (fun a ha => (hrun a ha).1) hlast]
    exact ih
  | empty hne hrun hbrace hclose _ ih =>
    rw [rawRules_run hrun, rules_open_brace hne hbrace, rules_opening_close hclose]
    exact ih
  | @braces run brace more last close rest rules hne hrun hbrace hmore hclose _ ih =>
    have hbraces := @rules_opening_braces _ char run _ (close :: rest) brace hmore false
    rw [List.append_assoc, List.singleton_append] at hbraces
    rw [rawRules_run hrun, rules_open_brace hne hbrace, hbraces, rules_opening_close hclose, ih]
    simp
  | rule hne hrun hbrace hmore hsome hfirst hbody hclose _ ih =>
    rw [rawRules_run hrun, rules_open_brace hne hbrace, rules_opening_braces hmore,
      rules_opening_declarations hsome hfirst hbody hclose, ih]

/-! ## What the search finds -/

section Bodies

variable {brace close : α} {more declarations rest : List α}

/-- The declarations match up to their closing brace, in one way. -/
lemma ways_declarations (hsome : declarations ≠ []) (hbody : ∀ a ∈ declarations, char a ≠ '}')
    (hclose : char close = '}') :
    declarationsExpression.ways char (declarations ++ close :: rest) =
      [⟨declarations ++ [close], [declarations], rest⟩] := by
  have hrejects : (one (· == '}')).Rejects char (· != '}') := by
    intro items a ha haccepts
    refine ways_one_eq_nil fun b hb => ?_
    obtain rfl := Option.mem_unique ha hb
    simpa using haccepts
  rw [declarationsExpression, ways_captured_run hrejects hsome (by simpa using hbody),
    ways_one_cons (by simpa using hclose)]
  · rfl
  · simpa using hclose

/-- The declarations do not match where there are none. -/
lemma ways_declarations_close (hclose : char close = '}') :
    declarationsExpression.ways char (close :: rest) = [] :=
  ways_captured_run_eq_nil (by simpa using hclose)

/-- A body matches its braces first, and its declarations behind each run of them. -/
lemma ways_body (hbrace : char brace = '{') (items : List α) :
    bodyExpression.ways char (brace :: items) =
      ((run (· == '{') true).ways char items).flatMap fun way =>
        (declarationsExpression.ways char way.rest).map (way.behind brace).andThen := by
  rw [bodyExpression, ways_followedBy, someOf, ways_one_followedBy (by simpa using hbrace),
    List.flatMap_map]
  rfl

/-- A body does not match without an opening brace. -/
lemma ways_body_eq_nil (h : ∀ a ∈ rest.head?, char a ≠ '{') :
    bodyExpression.ways char rest = [] := by
  rw [bodyExpression, ways_followedBy, someOf, ways_one_followedBy_eq_nil (by simpa using h)]
  rfl

/-- A body does not match where nothing stands between its braces. -/
lemma ways_body_empty (hbrace : char brace = '{') (hclose : char close = '}') :
    bodyExpression.ways char (brace :: close :: rest) = [] := by
  rw [ways_body hbrace, ways_run_stop (by simp [hclose]), List.flatMap_singleton]
  exact List.map_eq_nil_iff.2 (ways_declarations_close hclose)

/-- The longest run of braces comes first, and declarations are found behind it. -/
lemma exists_ways_body (hbrace : char brace = '{') (hmore : ∀ a ∈ more, char a = '{')
    (hsome : declarations ≠ []) (hfirst : ∀ a ∈ declarations.head?, char a ≠ '{')
    (hbody : ∀ a ∈ declarations, char a ≠ '}') (hclose : char close = '}') :
    ∃ taken others,
      bodyExpression.ways char (brace :: (more ++ (declarations ++ close :: rest))) =
        ⟨taken, [declarations], rest⟩ :: others := by
  obtain ⟨shorter, hways⟩ := exists_ways_run_append (· == '{') (by simpa using hmore)
    (declarations ++ close :: rest)
  have hstop : ∀ a ∈ (declarations ++ close :: rest).head?, (char a == '{') = false := by
    obtain ⟨a, tail, rfl⟩ := List.exists_cons_of_ne_nil hsome
    simpa using hfirst
  rw [ways_body hbrace, hways, ways_run_stop hstop, List.map_singleton, List.flatMap_append,
    List.flatMap_singleton]
  have hfound := @ways_declarations _ char close declarations rest hsome hbody hclose
  exact ⟨_, _, by rw [Way.andThen, Way.stay, hfound]; rfl⟩

/-- Behind the longest run of braces nothing is left for the declarations, so it gives one back. -/
lemma exists_ways_body_braces {last : α} (hbrace : char brace = '{')
    (hmore : ∀ a ∈ more ++ [last], char a = '{') (hclose : char close = '}') :
    ∃ taken others,
      bodyExpression.ways char (brace :: (more ++ last :: close :: rest)) =
        ⟨taken, [[last]], rest⟩ :: others := by
  rw [List.forall_mem_append] at hmore
  have hlast : char last = '{' := hmore.2 last (by simp)
  obtain ⟨shorter, hways⟩ := exists_ways_run_append (· == '{') (by simpa using hmore.1)
    (last :: close :: rest)
  have hnone : declarationsExpression.ways char (close :: rest) = [] :=
    ways_declarations_close hclose
  have hfound : declarationsExpression.ways char (last :: close :: rest) =
      [⟨[last, close], [[last]], rest⟩] :=
    ways_declarations (List.cons_ne_nil _ []) (by simp [hlast]) hclose
  rw [ways_body hbrace, hways, ways_greedy_cons (by simpa using hlast),
    ways_run_stop (by simp [hclose])]
  simp only [List.map_cons, List.map_nil, List.cons_append, List.nil_append, List.flatMap_cons,
    Way.andThen, Way.behind, Way.stay, hnone, hfound]
  exact ⟨_, _, rfl⟩

end Bodies

section Search

variable {run rest : List α} {close : α}

/-- Behind a run of plain items a body must follow. -/
lemma matchAt?_run (hne : run ≠ []) (hrun : ∀ a ∈ run, IsPlain (char a))
    (hrest : ∀ a ∈ rest.head?, ¬ IsPlain (char a)) :
    ruleNeedle.matchAt? char (run ++ rest) =
      (bodyExpression.ways char rest).head?.map (Way.andThen ⟨run, [run], rest⟩) := by
  have hrejects : bodyExpression.Rejects char fun c => decide (IsPlain c) := by
    intro items a ha hplain
    refine ways_body_eq_nil fun b hb => ?_
    obtain rfl := Option.mem_unique ha hb
    exact (of_decide_eq_true hplain).1
  have hstop : ∀ a ∈ (run ++ rest).head?, (char a == '}') = false := by
    obtain ⟨a, tail, rfl⟩ := List.exists_cons_of_ne_nil hne
    have ha := hrun a List.mem_cons_self
    simpa using ha.2.1
  rw [Needle.matchAt?, ruleNeedle, ways_followedBy, ways_run_stop hstop, List.flatMap_singleton,
    Way.map_stay_andThen, ← List.head?_map]
  refine congrArg List.head? (ways_captured_run hrejects hne ?_ ?_)
  · simpa using hrun
  · simpa using hrest

/-- Closing braces in front of a rule belong to its match. -/
lemma matchAt?_close (hclose : char close = '}') :
    ruleNeedle.matchAt? char (close :: rest) =
      (ruleNeedle.matchAt? char rest).map (Way.behind close) := by
  have hnone : ruleExpression.ways char (close :: rest) = [] :=
    ways_captured_run_eq_nil (by simp [hclose, IsPlain])
  rw [Needle.matchAt?, Needle.matchAt?, ← List.head?_map, ruleNeedle, ways_followedBy,
    ways_greedy_cons (by simpa using hclose), List.flatMap_append, List.flatMap_map,
    List.flatMap_singleton, ways_followedBy, List.map_flatMap]
  simp only [Way.stay, hnone, List.map_nil, List.append_nil, List.map_map]
  rfl

/-- A rule does not match at an opening brace or a semicolon. -/
lemma matchAt?_eq_none {a : α} (hplain : ¬ IsPlain (char a)) (hclose : char a ≠ '}') :
    ruleNeedle.matchAt? char (a :: rest) = none := by
  have hnone : ruleExpression.ways char (a :: rest) = [] :=
    ways_captured_run_eq_nil (by simpa using hplain)
  rw [Needle.matchAt?, ruleNeedle, ways_followedBy, ways_run_stop (by simpa using hclose),
    List.flatMap_singleton, Way.map_stay_andThen]
  exact congrArg List.head? hnone

/-- A closing brace in front of a text changes no groups that are found. -/
lemma findings_close (hclose : char close = '}') :
    (ruleNeedle.findings char (close :: rest)).map (·.groups) =
      (ruleNeedle.findings char rest).map (·.groups) := by
  cases hmatch : ruleNeedle.matchAt? char rest with
  | none => rw [Needle.findings_of_no_match (by rw [matchAt?_close hclose, hmatch]; rfl)]
  | some way =>
    rw [Needle.findings_of_match hmatch,
      Needle.findings_of_match (by rw [matchAt?_close hclose, hmatch]; rfl)]
    rfl

/-- Without a body behind it, a run of plain items is passed over. -/
lemma findings_run (hrun : ∀ a ∈ run, IsPlain (char a))
    (hrest : ∀ a ∈ rest.head?, ¬ IsPlain (char a)) (hbody : bodyExpression.ways char rest = []) :
    ruleNeedle.findings char (run ++ rest) = ruleNeedle.findings char rest := by
  induction run with
  | nil => rfl
  | cons a run ih =>
    have hnone : ruleNeedle.matchAt? char (a :: (run ++ rest)) = none := by
      rw [← List.cons_append, matchAt?_run (List.cons_ne_nil a run) hrun hrest, hbody]
      rfl
    rw [List.cons_append, Needle.findings_of_no_match hnone]
    exact ih (List.forall_mem_cons.1 hrun).2

/-- With a body behind it, a run of plain items is the selector list of a match. -/
lemma findings_rule {taken behind : List α} {groups : List (List α)} {others : List (Way α)}
    (hways : bodyExpression.ways char rest = ⟨taken, groups, behind⟩ :: others) (hne : run ≠ [])
    (hrun : ∀ a ∈ run, IsPlain (char a)) (hrest : ∀ a ∈ rest.head?, ¬ IsPlain (char a)) :
    (ruleNeedle.findings char (run ++ rest)).map (·.groups) =
      (run :: groups) :: (ruleNeedle.findings char behind).map (·.groups) := by
  have hmatch := matchAt?_run hne hrun hrest
  rw [hways] at hmatch
  rw [Needle.findings_of_match hmatch]
  rfl

/-- Without a closing brace nothing is found. -/
lemma findings_unclosed {items : List α} (hopen : ∀ a ∈ items, char a ≠ '}') :
    ruleNeedle.findings char items = [] := by
  have htakes : ruleNeedle.expression.Takes char '}' := by
    refine Takes.followedBy (Takes.followedBy (Takes.followedBy (Takes.followedBy ?_ _) _) _) _
    exact takes_one '}'
  induction items with
  | nil => exact Needle.findings_nil
  | cons a rest ih =>
    have hnone : ruleNeedle.matchAt? char (a :: rest) = none := by
      rw [Needle.matchAt?, htakes.ways_eq_nil hopen]
      rfl
    rw [Needle.findings_of_no_match hnone]
    exact ih (List.forall_mem_cons.1 hopen).2

end Search

/-- The search finds the rules that a text is taken apart into. -/
theorem Extracts.groups_eq {items : List α} {rules : List (RawRule α)}
    (h : Extracts char items rules) :
    (ruleNeedle.findings char items).map (·.groups) =
      rules.map fun rule => [rule.selector, rule.declarations] := by
  induction h with
  | unclosed hopen => rw [findings_unclosed hopen]; rfl
  | brace hbrace _ ih =>
    have hmark := not_isPlain_iff.2 (Or.inl hbrace)
    rw [Needle.findings_of_no_match (matchAt?_eq_none hmark (by simp [hbrace]))]
    exact ih
  | @statement run last rest rules hrun hlast _ ih =>
    have hmark := not_isPlain_iff.2 (Or.inr hlast)
    have hbody : bodyExpression.ways char (last :: rest) = [] :=
      ways_body_eq_nil (by rcases hlast with h | h <;> simp [h])
    rw [findings_run hrun (by simpa using hmark) hbody, ← ih]
    rcases hlast with hclose | hend
    · exact findings_close hclose
    · rw [Needle.findings_of_no_match (matchAt?_eq_none hmark (by simp [hend]))]
  | empty hne hrun hbrace hclose _ ih =>
    have hmark := not_isPlain_iff.2 (Or.inl hbrace)
    rw [findings_run hrun (by simpa using hmark) (ways_body_empty hbrace hclose),
      Needle.findings_of_no_match (matchAt?_eq_none hmark (by simp [hbrace])), ← ih]
    exact findings_close hclose
  | braces hne hrun hbrace hmore hclose _ ih =>
    have hmark := not_isPlain_iff.2 (Or.inl hbrace)
    obtain ⟨taken, others, hways⟩ := exists_ways_body_braces hbrace hmore hclose
    rw [findings_rule hways hne hrun (by simpa using hmark), ih]
    rfl
  | rule hne hrun hbrace hmore hsome hfirst hbody hclose _ ih =>
    have hmark := not_isPlain_iff.2 (Or.inl hbrace)
    obtain ⟨taken, others, hways⟩ := exists_ways_body hbrace hmore hsome hfirst hbody hclose
    rw [findings_rule hways hne hrun (by simpa using hmark), ih]
    rfl

/-- The rules of a text are the matches of the expression. -/
theorem rawRules_eq_findings (char : α → Char) (items : List α) :
    (rawRules char items).map (fun rule => [rule.selector, rule.declarations]) =
      (ruleNeedle.findings char items).map (·.groups) := by
  obtain ⟨rules, hrules⟩ := exists_extracts char items
  rw [hrules.groups_eq, hrules.rawRules_eq]

example : (ruleNeedle.findings id "a\x7b\x7b\x7d\x7d;b\x7b\x7dc\x7bd".toList).map (·.groups) =
    [["a".toList, "\x7b".toList]] := by
  decide +kernel

end Items

end CssPrune.Css

namespace CssPrune

open Css

/-- The entries of a text are the captures of the matches, in order, with their blanks collapsed. -/
theorem Reading.ofRules_matches (source : Source) (scope : Scope) (text : List PlacedChar) :
    (Reading.ofRules source scope text).entries.map
        (fun entry => (entry.scope, [entry.selector, entry.declarations])) =
      (ruleNeedle.findings PlacedChar.char text).map
        fun way => (scope, way.groups.map PlacedChar.collapse) := by
  have hgroups := congrArg (List.map fun groups => (scope, groups.map PlacedChar.collapse))
    (rawRules_eq_findings PlacedChar.char text)
  rw [List.map_map, List.map_map] at hgroups
  rw [Reading.ofRules, List.map_map]
  exact hgroups

end CssPrune
