import CssPrune.Proofs.Independence
import CssPrune.Proofs.Stretches

/-!
# Where rules come from

A rule keeps the span with which it was inserted, however many declarations it collects. So what its
span says about it is settled by the text that brought it: the first one that says its scope and its
selector list under its name, since the last time that they were not there
(`Session.exists_brought`). As long as no rules are removed this is the first text of all, and the
span reads as the selector list (`Session.spans_read`).
-/

namespace CssPrune

/-! ## Rules and where they stand -/

/-- A rule and where it stands. -/
structure PlacedRule where
  name : String
  scope : Scope
  selector : Text
  rule : Rule
  deriving DecidableEq, Repr

/-- What tells a rule apart from the others. -/
def PlacedRule.key (placed : PlacedRule) : String × Scope × Text :=
  (placed.name, placed.scope, placed.selector)

namespace Sheets

/-- All rules with where they stand, in order. -/
def placed (sheets : Sheets) : List PlacedRule :=
  sheets.byName.entries.flatMap fun named =>
    named.2.scopes.entries.flatMap fun group =>
      group.2.entries.map fun rule => ⟨named.1, group.1, rule.1, rule.2⟩

/-- The span of the rule of a selector list. -/
def span? (sheets : Sheets) (name : String) (scope : Scope) (selector : Text) : Option Span :=
  (sheets.rule? name scope selector).map (·.span)

/-- A rule stands in a scope of a stylesheet. -/
lemma mem_placed_iff {sheets : Sheets} {name : String} {scope : Scope} {selector : Text}
    {rule : Rule} :
    ⟨name, scope, selector, rule⟩ ∈ sheets.placed ↔
      ∃ sheet, (name, sheet) ∈ sheets.byName.entries ∧
        ∃ rules, (scope, rules) ∈ sheet.scopes.entries ∧ (selector, rule) ∈ rules.entries := by
  constructor
  · intro hmem
    obtain ⟨⟨_, sheet⟩, hsheet, hmem⟩ := List.mem_flatMap.1 hmem
    obtain ⟨⟨_, rules⟩, hrules, hmem⟩ := List.mem_flatMap.1 hmem
    obtain ⟨⟨_, _⟩, hrule, heq⟩ := List.mem_map.1 hmem
    cases heq
    exact ⟨sheet, hsheet, rules, hrules, hrule⟩
  · rintro ⟨sheet, hsheet, rules, hrules, hrule⟩
    apply List.mem_flatMap.2
    refine ⟨(name, sheet), hsheet, List.mem_flatMap.2 ⟨(scope, rules), hrules, ?_⟩⟩
    exact List.mem_map.2 ⟨(selector, rule), hrule, rfl⟩

/-- In well formed stylesheets, a rule that stands somewhere is the one that has its span there. -/
lemma span?_of_mem_placed {sheets : Sheets} (h : sheets.WellFormed) {placed : PlacedRule}
    (hmem : placed ∈ sheets.placed) :
    sheets.span? placed.name placed.scope placed.selector = some placed.rule.span := by
  obtain ⟨name, scope, selector, rule⟩ := placed
  obtain ⟨sheet, hnamed, rules, hgroup, hrule⟩ := mem_placed_iff.1 hmem
  have hsheet : sheet.WellFormed := h.entry name sheet hnamed
  have hrules : rules.WellFormed := (hsheet.entry scope rules hgroup).2
  have hname : sheets.sheet? name = some sheet := OrderedMap.get?_eq_some h.nodup hnamed
  have hscope : sheet.ruleSet? scope = some rules := OrderedMap.get?_eq_some hsheet.nodup hgroup
  have hselector : rules.get? selector = some rule := OrderedMap.get?_eq_some hrules.nodup hrule
  rw [span?, rule?, hname]
  show ((sheet.ruleSet? scope).bind (·.get? selector)).map (·.span) = some rule.span
  rw [hscope, Option.bind_some, hselector]
  rfl

end Sheets

/-! ## What an insertion does to spans -/

/-- Whether an entry is for a selector list in a scope. -/
def Entry.isAt (scope : Scope) (selector : Text) (entry : Entry) : Bool :=
  entry.scope == scope && entry.selector == selector

/-- The span of the first rule that a source says for a selector list in a scope. -/
def Source.firstSpan? (source : Source) (scope : Scope) (selector : Text) : Option Span :=
  ((Reading.ofSource source).entries.find? (·.isAt scope selector)).map (·.span)

namespace Stylesheet

/-- The rule of a selector list in a scope. -/
def rule? (sheet : Stylesheet) (scope : Scope) (selector : Text) : Option Rule :=
  (sheet.ruleSet? scope).bind (·.get? selector)

variable (sheet : Stylesheet) (scope : Scope) (selector : Text)

/-- An inserted entry extends or makes its own rule and leaves the others. -/
lemma rule?_insert (entry : Entry) :
    (sheet.insert entry).rule? scope selector =
      if entry.isAt scope selector then
        some (extendRule entry.declarations entry.span (sheet.rule? scope selector))
      else sheet.rule? scope selector := by
  rw [rule?, rule?, ruleSet?, ruleSet?, insert, OrderedMap.get?_update, Entry.isAt]
  by_cases hscope : scope = entry.scope
  · subst hscope
    rw [if_pos (beq_self_eq_true _), Option.bind_some, OrderedMap.get?_update]
    have hbase : ((sheet.scopes.get? entry.scope).getD .empty).get? selector =
        (sheet.scopes.get? entry.scope).bind (·.get? selector) := by
      cases sheet.scopes.get? entry.scope <;> rfl
    by_cases hselector : selector = entry.selector
    · subst hselector
      simp [hbase]
    · have hother : ¬ entry.selector = selector := fun heq => hselector heq.symm
      simp [hselector, hother, hbase]
  · have hother : ¬ entry.scope = scope := fun heq => hscope heq.symm
    simp [hscope, hother]

/-- A rule keeps its span; a new one has the span of its first entry. -/
lemma span_insertAll (entries : List Entry) :
    ((sheet.insertAll entries).rule? scope selector).map (·.span) =
      ((sheet.rule? scope selector).map (·.span)).or
        ((entries.find? (·.isAt scope selector)).map (·.span)) := by
  induction entries generalizing sheet with
  | nil => exact Option.or_none.symm
  | cons entry entries ih =>
    show (((sheet.insert entry).insertAll entries).rule? scope selector).map _ = _
    rw [ih, rule?_insert]
    cases hat : entry.isAt scope selector with
    | true =>
      rw [if_pos rfl, List.find?_cons_of_pos hat]
      cases sheet.rule? scope selector <;> rfl
    | false => rw [if_neg (by decide), List.find?_cons_of_neg (by simp [hat])]

end Stylesheet

namespace Sheets

variable (sheets : Sheets) (name : String) (scope : Scope) (selector : Text)

/-- The span of a rule is found in the stylesheet of its name. -/
lemma span?_eq :
    sheets.span? name scope selector =
      (sheets.sheet? name).bind fun sheet => (sheet.rule? scope selector).map (·.span) := by
  rw [span?, rule?]
  cases sheets.sheet? name <;> rfl

/-- Inserted entries give a span to a rule that has none yet. -/
lemma span?_insertAll (added : String) (entries : List Entry) :
    (sheets.insertAll added entries).span? name scope selector =
      if added == name then
        (sheets.span? name scope selector).or
          ((entries.find? (·.isAt scope selector)).map (·.span))
      else sheets.span? name scope selector := by
  rw [span?_eq, span?_eq, sheet?, sheet?, insertAll, OrderedMap.get?_update]
  by_cases hname : name = added
  · subst hname
    rw [if_pos (beq_self_eq_true _), if_pos (beq_self_eq_true _), Option.bind_some,
      Stylesheet.span_insertAll]
    cases sheets.byName.get? name <;> rfl
  · have hother : ¬ added = name := fun heq => hname heq.symm
    simp [hname, hother]

/-- A removal leaves the spans of the selector lists that are kept. -/
lemma span?_filter (keep : Text → Bool) :
    (sheets.filter keep).span? name scope selector =
      if keep selector then sheets.span? name scope selector else none := by
  rw [span?, rule?_filter]
  split <;> rfl

end Sheets

/-! ## Steps -/

namespace Session

/-- The text that a step adds, and its name. -/
def addition? (session : Session) : Step → Option (String × Text)
  | .sheet name css => some (name, css)
  | .inline css => some (inlineName session.unnamed, css)
  | .document _ => none
  | .prune => none

/-- The texts that are added on the way, in order, each with its name. -/
def additions (session : Session) : List Step → List (String × Text)
  | [] => []
  | step :: steps => (session.addition? step).toList ++ (session.step step).additions steps

/-- The first span that an addition gives to the rule of a selector list under a name. -/
def additionSpan? (name : String) (scope : Scope) (selector : Text) (added : String × Text) :
    Option Span :=
  if added.1 == name then Source.firstSpan? ⟨added.1, added.2⟩ scope selector else none

variable {session : Session} {name : String} {scope : Scope} {selector : Text}

/-- An added stylesheet gives a span to a rule that has none yet. -/
lemma span?_addSheet (session : Session) (name : String) (scope : Scope) (selector : Text)
    (added : String × Text) :
    (session.addSheet added.1 added.2).sheets.span? name scope selector =
      (session.sheets.span? name scope selector).or
        (additionSpan? name scope selector added) := by
  rw [sheets_addSheet, Sheets.span?_insertAll, additionSpan?]
  split
  · rfl
  · rw [Option.or_none]

/-- A step that adds a text gives spans to rules that were not there. -/
lemma span?_step_of_addition {step : Step} {added : String × Text}
    (h : session.addition? step = some added) (name : String) (scope : Scope) (selector : Text) :
    (session.step step).sheets.span? name scope selector =
      (session.sheets.span? name scope selector).or
        (additionSpan? name scope selector added) := by
  cases step with
  | document html => cases h
  | sheet other css =>
    obtain rfl := Option.some.inj h
    exact span?_addSheet session name scope selector (other, css)
  | inline css =>
    obtain rfl := Option.some.inj h
    exact span?_addSheet { session with unnamed := session.unnamed + 1 } name scope selector
      (inlineName session.unnamed, css)
  | prune => cases h

/-- Any other step leaves a rule with its span, or removes it. -/
lemma span?_step_of_no_addition {step : Step} (h : session.addition? step = none) (name : String)
    (scope : Scope) (selector : Text) :
    (session.step step).sheets.span? name scope selector =
      if step.isPrune && !session.live.isLive selector then none
      else session.sheets.span? name scope selector := by
  cases step with
  | document html => rfl
  | sheet other css => cases h
  | inline css => cases h
  | prune =>
    show session.prune.sheets.span? name scope selector = _
    rw [sheets_prune, Sheets.span?_filter]
    cases session.live.isLive selector <;> rfl

/-- Without removals, a rule has the span of the first text that says it. -/
lemma span?_run_of_no_prune {steps : List Step} (h : ∀ step ∈ steps, step.isPrune = false)
    (session : Session) (name : String) (scope : Scope) (selector : Text) :
    (session.run steps).sheets.span? name scope selector =
      (session.sheets.span? name scope selector).or
        ((session.additions steps).findSome? (additionSpan? name scope selector)) := by
  induction steps generalizing session with
  | nil => exact Option.or_none.symm
  | cons step steps ih =>
    obtain ⟨hstep, hsteps⟩ := List.forall_mem_cons.1 h
    show ((session.step step).run steps).sheets.span? name scope selector = _
    rw [ih hsteps, additions]
    cases hadded : session.addition? step with
    | none =>
      rw [span?_step_of_no_addition hadded, hstep]
      rfl
    | some added =>
      rw [span?_step_of_addition hadded, Option.or_assoc]
      congr 1
      show _ = List.findSome? _ (added :: _)
      rw [List.findSome?_cons]
      cases additionSpan? name scope selector added <;> rfl

/-! ## The text that brought a rule -/

/-- No rule has a span before the first step. -/
lemma span?_start (settings : Settings) (name : String) (scope : Scope) (selector : Text) :
    (start settings).sheets.span? name scope selector = none :=
  rfl

/-- A run with one more step takes that step last. -/
lemma run_concat (session : Session) (steps : List Step) (step : Step) :
    session.run (steps ++ [step]) = (session.run steps).step step :=
  List.foldl_append

/-- A text was added when no rule was there for a selector list, and from this step on there always
was one. -/
structure Brought (session : Session) (steps : List Step) (name : String) (scope : Scope)
    (selector : Text) (css : Text) : Prop where
  since : ∃ before step after, steps = before ++ step :: after ∧
    (session.run before).addition? step = some (name, css) ∧
    (session.run before).sheets.rule? name scope selector = none ∧
    ∀ between, between <+: after →
      (session.run (before ++ step :: between)).sheets.rule? name scope selector ≠ none

/-- A selector list has no rule exactly if it has no span. -/
lemma rule?_eq_none_iff {sheets : Sheets} :
    sheets.rule? name scope selector = none ↔ sheets.span? name scope selector = none :=
  Option.map_eq_none_iff.symm

/-- The rule stays for another step. -/
lemma Brought.concat {steps : List Step} {css : Text}
    (h : Brought session steps name scope selector css) {step : Step}
    (hstep : (session.run (steps ++ [step])).sheets.rule? name scope selector ≠ none) :
    Brought session (steps ++ [step]) name scope selector css := by
  obtain ⟨before, first, after, rfl, hadded, habsent, hafter⟩ := h.since
  refine ⟨before, first, after ++ [step], by simp, hadded, habsent, fun between hbetween => ?_⟩
  rcases List.prefix_concat_iff.1 hbetween with rfl | hbetween
  · simpa using hstep
  · exact hafter between hbetween

/-- A text that a step adds brings what was not there. -/
lemma brought_concat {steps : List Step} {step : Step} {css : Text}
    (hadded : (session.run steps).addition? step = some (name, css))
    (habsent : (session.run steps).sheets.rule? name scope selector = none)
    (hstep : (session.run (steps ++ [step])).sheets.rule? name scope selector ≠ none) :
    Brought session (steps ++ [step]) name scope selector css := by
  refine ⟨steps, step, [], rfl, hadded, habsent, fun between hbetween => ?_⟩
  obtain rfl := List.prefix_nil.1 hbetween
  exact hstep

/-- What a rule has as its span is the first one in the text that brought it. -/
lemma exists_brought {steps : List Step} {span : Span}
    (hsession : session.sheets.span? name scope selector = none)
    (h : (session.run steps).sheets.span? name scope selector = some span) :
    ∃ css, Brought session steps name scope selector css ∧
      Source.firstSpan? ⟨name, css⟩ scope selector = some span := by
  induction steps using List.reverseRecOn generalizing span with
  | nil => cases hsession.symm.trans h
  | append_singleton steps step ih =>
    have hthere : (session.run (steps ++ [step])).sheets.rule? name scope selector ≠ none := by
      rw [Ne, rule?_eq_none_iff, h]
      exact Option.some_ne_none span
    rw [run_concat] at h
    cases hadded : (session.run steps).addition? step with
    | none =>
      rw [span?_step_of_no_addition hadded] at h
      split at h
      · cases h
      · obtain ⟨css, hbrought, hspan⟩ := ih h
        exact ⟨css, hbrought.concat hthere, hspan⟩
    | some added =>
      rw [span?_step_of_addition hadded] at h
      cases hspan : (session.run steps).sheets.span? name scope selector with
      | some other =>
        rw [hspan] at h
        obtain rfl : other = span := Option.some.inj h
        obtain ⟨css, hbrought, hfirst⟩ := ih hspan
        exact ⟨css, hbrought.concat hthere, hfirst⟩
      | none =>
        rw [hspan, Option.none_or, additionSpan?] at h
        split at h
        · rename_i hname
          obtain ⟨other, css⟩ := added
          obtain rfl : other = name := by simpa using hname
          exact ⟨css, brought_concat hadded (rule?_eq_none_iff.2 hspan) hthere, h⟩
        · cases h

end Session

/-- A source says its first span for a selector list with a run that reads as it. -/
lemma Source.exists_of_firstSpan? {source : Source} {scope : Scope} {selector : Text} {span : Span}
    (h : source.firstSpan? scope selector = some span) :
    ∃ run, source.SelectorRun run ∧ PlacedChar.collapse run = selector ∧
      span = .covering source run := by
  obtain ⟨entry, hfind, rfl⟩ := Option.map_eq_some_iff.1 h
  have hat := List.find?_some hfind
  obtain ⟨run, hrun, hselector, hspan⟩ :=
    Reading.exists_selectorRun (List.mem_of_find?_eq_some hfind)
  refine ⟨run, hrun, ?_, hspan⟩
  rw [← hselector]
  simpa using (Bool.and_eq_true_iff.1 hat).2

namespace Session

/-- As long as no rules are removed, the span of a rule is the first one that a text of its name
says for it, and the stretch that it covers reads as the selector list. -/
theorem spans_read (settings : Settings) {steps : List Step}
    (hsteps : ∀ step ∈ steps, step.isPrune = false) :
    ∀ placed ∈ ((start settings).run steps).sheets.placed, ∃ before css after,
      (start settings).additions steps = before ++ (placed.name, css) :: after ∧
      (∀ text, (placed.name, text) ∈ before →
        Source.firstSpan? ⟨placed.name, text⟩ placed.scope placed.selector = none) ∧
      Source.firstSpan? ⟨placed.name, css⟩ placed.scope placed.selector = some placed.rule.span ∧
      placed.rule.span.source = ⟨placed.name, css⟩ ∧
      placed.rule.span.Reads placed.selector := by
  intro placed hplaced
  have hwell : ((start settings).run steps).sheets.WellFormed :=
    wellFormed_run (wellFormed_start settings) steps
  have hspan := Sheets.span?_of_mem_placed hwell hplaced
  rw [span?_run_of_no_prune hsteps, span?_start, Option.none_or] at hspan
  obtain ⟨before, ⟨name, css⟩, after, hadditions, hfirst, hbefore⟩ :=
    List.findSome?_eq_some_iff.1 hspan
  rw [additionSpan?] at hfirst
  split at hfirst
  · rename_i hname
    obtain rfl : name = placed.name := by simpa using hname
    obtain ⟨run, hrun, hselector, hcovering⟩ := Source.exists_of_firstSpan? hfirst
    refine ⟨before, css, after, hadditions, fun text htext => ?_, hfirst, ?_, ?_⟩
    · have hnone := hbefore _ htext
      rwa [additionSpan?, if_pos (beq_self_eq_true _)] at hnone
    · rw [hcovering, Span.source_covering]
    · rw [hcovering, ← hselector]
      exact Span.reads_covering hrun.ne_nil hrun.isInfix
  · cases hfirst

/-- A comment and a line end of two characters lie inside of one span, and the declarations that a
later text adds leave it where it is. -/
theorem spans_read_later_text :
    let steps : List Step := [.sheet "a.css" "é\x7bx\x7d p /*\x7b*/\r\nq\x7by\x7d".toList,
      .inline "p q\x7bz\x7d".toList, .document "<p>".toList,
      .sheet "a.css" "/*é*/p\tq\x7bz\x7d".toList]
    ((start {}).run steps).sheets.placed.map
        (fun placed => (placed.name, placed.rule.span.start, placed.rule.span.stop)) =
      [("a.css", 0, 2), ("a.css", 5, 16), ("inline_0", 0, 3)] ∧
    ∀ placed ∈ ((start {}).run steps).sheets.placed, placed.rule.span.Reads placed.selector := by
  intro steps
  refine ⟨by decide +kernel, fun placed hplaced => ?_⟩
  have hsteps : ∀ step ∈ steps, step.isPrune = false := by decide
  obtain ⟨before, css, after, -, -, -, -, hreads⟩ := spans_read {} hsteps placed hplaced
  exact hreads

end Session

end CssPrune
