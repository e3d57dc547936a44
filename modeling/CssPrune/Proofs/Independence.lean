import CssPrune.Proofs.Checked.Engine
import CssPrune.Proofs.StoredSheets
import Mathlib.Algebra.Order.BigOperators.Group.List
import Mathlib.Algebra.Order.Group.Nat

/-!
# Stylesheets are independent

The stylesheets of a run share its store, its log and the pass that removes rules, but nothing of
one shows in another: each output, and the events about each name in their order, are those of the
run on the texts of that name alone (`prune_independent`). Everything that is said about a text has
its span in that text (`Reading.about_ofSource`), so the events can be told apart by the names of
their sources.

A run with every access checked has one source map for all texts, in which the place of a text
depends on those before it. The lines and columns that it reports do not (`execute_independent`).
-/

namespace CssPrune

/-! ## Sources of spans -/

/-- The span of placed characters lies in their source. -/
lemma Span.source_covering (source : Source) (placed : List PlacedChar) :
    (Span.covering source placed).source = source := by
  rw [covering]
  split <;> rfl

namespace Reading

open Css

/-- All that was read points into one source. -/
structure About (source : Source) (reading : Reading) : Prop where
  entries : ∀ entry ∈ reading.entries, entry.span.source = source
  warnings : ∀ event ∈ reading.warnings, event.span.source = source

variable {source : Source} {first second : Reading}

/-- An empty reading is about any source. -/
lemma about_empty : About source empty := ⟨nofun, nofun⟩

/-- Readings about a source one behind the other are about it. -/
lemma About.append (hfirst : About source first) (hsecond : About source second) :
    About source (first ++ second) :=
  ⟨List.forall_mem_append.2 ⟨hfirst.entries, hsecond.entries⟩,
    List.forall_mem_append.2 ⟨hfirst.warnings, hsecond.warnings⟩⟩

/-- Joined readings about a source are about it. -/
lemma about_join {readings : List Reading} (h : ∀ reading ∈ readings, About source reading) :
    About source (join readings) := by
  induction readings with
  | nil => exact about_empty
  | cons reading readings ih =>
    obtain ⟨hreading, hreadings⟩ := List.forall_mem_cons.1 h
    exact hreading.append (ih hreadings)

/-- A reading about a source that may be missing is about it. -/
lemma about_getD {reading? : Option Reading} (h : ∀ reading ∈ reading?, About source reading) :
    About source (reading?.getD empty) := by
  cases reading? with
  | none => exact about_empty
  | some reading => exact h reading rfl

/-- A warning about placed characters is about their source. -/
lemma about_warn (notice : Notice) (placed : List PlacedChar) :
    About source (warn source notice placed) :=
  ⟨nofun, List.forall_mem_singleton.2 (Span.source_covering source placed)⟩

/-- The rules of a text are about its source. -/
lemma about_ofRules (scope : Scope) (text : List PlacedChar) :
    About source (ofRules source scope text) := by
  refine ⟨fun entry hentry => ?_, nofun⟩
  obtain ⟨rule, -, rfl⟩ := List.mem_map.1 hentry
  exact Span.source_covering source rule.selector

/-- The blocks behind a media query are about their source. -/
lemma about_ofBlocks (query : Text) (stretch : Blocks PlacedChar) :
    About source (ofBlocks source query stretch) := by
  have hleftover : About source (if stretch.leftover.isEmpty then empty
      else warn source .unbalancedBraces stretch.leftover) := by
    split
    · exact about_empty
    · exact about_warn _ _
  refine (hleftover.append (about_getD fun reading hreading => ?_)).append
    (about_join fun reading hreading => ?_)
  · obtain ⟨text, -, rfl⟩ := Option.map_eq_some_iff.1 hreading
    exact about_ofRules _ text
  · obtain ⟨text, -, rfl⟩ := List.mem_map.1 hreading
    exact about_ofRules _ text

/-- What follows an `@media` is about its source. -/
lemma about_ofMedia (last? : Option PlacedChar) (piece : MediaPiece PlacedChar) :
    About source (ofMedia source last? piece) := by
  rw [ofMedia]
  obtain ⟨query, block⟩ := cutBefore PlacedChar.char '{'
    (Text.trimWhere PlacedChar.isBlank piece.items)
  by_cases hopening : block.isEmpty = true
  · simp only [hopening, if_true]
    exact about_warn _ _
  · by_cases hclosing : (throughLast PlacedChar.char '}' block).isEmpty = true
    · simp only [hopening, hclosing, if_true]
      exact about_warn _ _
    · simp only [hopening, hclosing]
      exact about_ofBlocks _ _

/-- The stretches of a stylesheet are about their source. -/
lemma about_ofPieces (last? : Option PlacedChar) (pieces : List (MediaPiece PlacedChar)) :
    About source (ofPieces source last? pieces) := by
  cases pieces with
  | nil => exact about_empty
  | cons first pieces =>
    refine (about_ofRules _ _).append (about_join fun reading hreading => ?_)
    obtain ⟨piece, -, rfl⟩ := List.mem_map.1 hreading
    exact about_ofMedia last? piece

/-- What is read from a source points into it. -/
lemma about_ofSource (source : Source) : About source (ofSource source) := by
  refine (about_getD fun reading hreading => ?_).append (about_ofPieces _ _)
  obtain ⟨slash, -, rfl⟩ := Option.map_eq_some_iff.1 hreading
  exact ⟨nofun, List.forall_mem_singleton.2 rfl⟩

end Reading

/-- The rules of a name point into its texts. -/
lemma name_of_mem_rules {name : String} {css : List (String × Text)} {selector : Text} {rule : Rule}
    (h : (selector, rule) ∈ (Stylesheet.empty.insertAll (entriesOf name css)).rules) :
    rule.span.source.name = name := by
  have hentry : ∀ entry ∈ entriesOf name css, entry.span.source.name = name := by
    intro entry hmem
    obtain ⟨⟨other, text⟩, hnamed, hentry⟩ := List.mem_flatMap.1 hmem
    obtain rfl : other = name := by simpa using (List.mem_filter.1 hnamed).2
    rw [(Reading.about_ofSource ⟨other, text⟩).entries entry hentry]
  have hsheet : (Stylesheet.empty.insertAll (entriesOf name css)).Holds (fun _ => True)
      fun _ rule => rule.span.source.name = name := by
    refine Stylesheet.holds_empty.insertAll fun entry hmem => ⟨trivial, fun rule? hrule => ?_⟩
    cases rule? with
    | none => exact hentry entry hmem
    | some rule => exact hrule rule rfl
  exact hsheet.of_mem_rules h

/-! ## The texts of one name -/

section Texts

variable (html : List Text) (css : List (String × Text)) (settings : Settings) (name : String)

/-- The texts of a name. -/
def textsOf (name : String) (css : List (String × Text)) : List (String × Text) :=
  css.filter (·.1 == name)

/-- The names of some texts, in the order of their first occurrence. -/
def namesOf (css : List (String × Text)) : List String :=
  (css.map (·.1)).eraseDups

/-- The texts of one name have that name alone, if they are any. -/
lemma namesOf_textsOf : namesOf (textsOf name css) = (namesOf css).filter (· == name) := by
  rw [namesOf, namesOf, textsOf, filter_eraseDups, List.filter_map]
  rfl

/-- The texts of a name say what all texts say under it. -/
lemma entriesOf_textsOf : entriesOf name (textsOf name css) = entriesOf name css := by
  rw [entriesOf, entriesOf, textsOf, List.filter_filter]
  simp

/-- The outputs of a name are those of its texts. -/
lemma result_prune_textsOf :
    (prune html (textsOf name css) settings).result =
      (prune html css settings).result.filter (·.name == name) := by
  rw [result_prune_eq, result_prune_eq, ← namesOf, ← namesOf, namesOf_textsOf, List.filter_map]
  apply List.map_congr_left
  intro other hother
  obtain rfl : other = name := by simpa using (List.mem_filter.1 hother).2
  rw [keptOf, keptOf, entriesOf_textsOf]

/-- The warnings about some texts. -/
def warningsOf (css : List (String × Text)) : List Event :=
  css.flatMap fun named => (Reading.ofSource ⟨named.1, named.2⟩).warnings

/-- The events about the rules of some texts that are not used. -/
def removalsIn (live : LiveSet) (css : List (String × Text)) : List Event :=
  (namesOf css).flatMap fun name =>
    Checked.removalsOf live (Stylesheet.empty.insertAll (entriesOf name css)).rules

/-- The warnings about the texts of a name are those that name it. -/
lemma warningsOf_textsOf :
    warningsOf (textsOf name css) = (warningsOf css).filter (·.span.source.name == name) := by
  refine (filter_flatMap_eq fun named _ event hevent => ?_).symm
  rw [(Reading.about_ofSource _).warnings event hevent]

/-- The removals in the texts of a name are those that name it. -/
lemma removalsIn_textsOf (live : LiveSet) :
    removalsIn live (textsOf name css) =
      (removalsIn live css).filter (·.span.source.name == name) := by
  rw [removalsIn, removalsIn, namesOf_textsOf, filter_flatMap_eq (q := (· == name))]
  · apply List.flatMap_congr
    intro other hother
    obtain rfl : other = name := by simpa using (List.mem_filter.1 hother).2
    rw [entriesOf_textsOf]
  · intro other _ event hevent
    obtain ⟨⟨selector, rule⟩, hrule, rfl⟩ := List.mem_map.1 hevent
    rw [name_of_mem_rules (List.mem_filter.1 hrule).1]

/-- Added stylesheets report their warnings in order. -/
lemma Session.log_addNamed (session : Session) :
    (session.addNamed css).log =
      session.log ++ if session.settings.quiet then [] else warningsOf css := by
  induction css generalizing session with
  | nil => simp [addNamed, warningsOf]
  | cons named css ih =>
    have hrest := ih (session.addSheet named.1 named.2)
    rw [settings_addSheet, log_addSheet_append, List.append_assoc] at hrest
    refine hrest.trans (congrArg _ ?_)
    split <;> rfl

/-- The log holds the warnings about the texts, then the events about the removed rules. -/
lemma log_prune_eq :
    (prune html css settings).log =
      if settings.quiet then []
      else warningsOf css ++
        if settings.verbose then removalsIn (liveSelectors html settings) css else [] := by
  have hlog : (Session.ofTexts html css settings).log =
      if settings.quiet then [] else warningsOf css := by
    rw [Session.ofTexts, Session.log_addNamed, (Session.foldl_addDocument _ html).2,
      Session.log_foldl_addDocument]
    rfl
  have hremovals : (Session.ofTexts html css settings).removals =
      removalsIn (liveSelectors html settings) css := by
    rw [Session.removals, Session.live_ofTexts, Sheets.rules, OrderedMap.values,
      Session.entries_ofTexts, List.map_map, List.flatMap_map, ← Checked.removalsOf,
      Checked.removalsOf_flatMap]
    rfl
  show (Session.ofTexts html css settings).prune.log = _
  rw [Session.log_prune_append, Session.settings_ofTexts, hlog, hremovals]
  cases settings.quiet <;> rfl

/-- The events about a name are those about its texts. -/
lemma log_prune_textsOf :
    (prune html (textsOf name css) settings).log =
      (prune html css settings).log.filter (·.span.source.name == name) := by
  rw [log_prune_eq, log_prune_eq, warningsOf_textsOf, removalsIn_textsOf]
  cases settings.quiet <;> cases settings.verbose <;> simp

/-- A run gives one output for each name, in the order in which the names first occur. Each of them
is the one output of the run on the texts of its name, and the events about a name are, in order,
the log of that run. -/
theorem prune_independent :
    (prune html css settings).result.map (·.name) = namesOf css ∧
      (∀ output ∈ (prune html css settings).result,
        (prune html (textsOf output.name css) settings).result = [output]) ∧
      ∀ name, (prune html css settings).log.filter (·.span.source.name == name) =
        (prune html (textsOf name css) settings).log := by
  have hnames : (prune html css settings).result.map (·.name) = namesOf css := by
    rw [result_prune_eq, List.map_map]
    exact List.map_id _
  have hnodup : ((prune html css settings).result.map (·.name)).Nodup := by
    rw [hnames]
    exact nodup_eraseDups _
  refine ⟨hnames, fun output houtput => ?_, fun name => ?_⟩
  · rw [result_prune_textsOf, filter_eq_singleton hnodup houtput]
  · rw [log_prune_textsOf]

end Texts

/-! ## Positions in a shared source map -/

namespace Checked

/-- The steps of a run on documents and named stylesheets. -/
def stepsOf (html : List Text) (css : List (String × Text)) : List Step :=
  html.map .document ++ css.map (fun named => .sheet named.1 named.2) ++ [.prune]

/-- The positions of the source map that some texts take. -/
def textsSize (css : List (String × Text)) : Nat :=
  (css.map fun named => Text.utf8Size named.2 + 1).sum

section Runs

variable {Map : Type} {maps : SourceMap Map} (html : List Text) (css : List (String × Text))
  (settings : Settings) (name : String)

/-- The steps of a run on texts lead where the texts lead, and remove rules at the end. -/
lemma run_stepsOf :
    (Session.start settings).run (stepsOf html css) =
      (Session.ofTexts html css settings).prune := by
  rw [Session.run, stepsOf, List.foldl_append, List.foldl_append, List.foldl_map, List.foldl_map]
  rfl

/-- The steps of a run on texts take the positions of the texts. -/
lemma sum_stepSize_stepsOf : ((stepsOf html css).map stepSize).sum = textsSize css := by
  have hdocuments : ((html.map Step.document).map stepSize).sum = 0 := by
    rw [List.map_map]
    simp [Function.comp_def, stepSize]
  rw [stepsOf, List.map_append, List.map_append, List.sum_append, List.sum_append, hdocuments,
    List.map_map, Nat.zero_add]
  exact Nat.add_zero _

/-- The texts of one name take no more positions than all texts. -/
lemma textsSize_textsOf_le : textsSize (textsOf name css) ≤ textsSize css :=
  (List.filter_sublist.map _).sum_le_sum fun _ _ => Nat.zero_le _

/-- A checked run prints what the run prints, and reports its events at their places. -/
lemma execute_stepsOf (hmaps : maps.Lawful) {css : List (String × Text)}
    (hsize : textsSize css < 2 ^ 31) :
    ∃ log, execute maps settings (stepsOf html css) = .ok ((prune html css settings).result, log) ∧
      List.Forall₂ Report.Is log (prune html css settings).log := by
  have hroom : 0 + ((stepsOf html css).map stepSize).sum < 2 ^ 31 := by
    rwa [Nat.zero_add, sum_stepSize_stepsOf]
  obtain ⟨engine, hrun, hengine⟩ :=
    (Engine.start_is hmaps settings).run hmaps (stepsOf html css) (Nat.le_refl 0) hroom
  rw [run_stepsOf] at hengine
  refine ⟨engine.log, ?_, hengine.log⟩
  rw [execute, hrun, ok_bind, storeOutputs_eq hengine.store, hengine.settings]
  rfl

end Runs

/-- A report names the file that its event names. -/
lemma Report.Is.file {report : Report} {event : Event} (h : report.Is event) :
    report.location.file = event.span.source.name := by
  have hlocation := h.location
  rw [Span.location?] at hlocation
  obtain ⟨start, -, hrest⟩ := Option.bind_eq_some_iff.1 hlocation
  obtain ⟨stop, -, heq⟩ := Option.bind_eq_some_iff.1 hrest
  rw [← Option.some.inj heq]

/-- An event has one report. -/
lemma Report.leftUnique : Relator.LeftUnique Report.Is := by
  rintro ⟨notice, location⟩ ⟨notice', location'⟩ event ⟨hnotice, hlocation⟩ ⟨hnotice', hlocation'⟩
  obtain rfl : notice = notice' := hnotice.trans hnotice'.symm
  obtain rfl : location = location' := Option.some.inj (hlocation.symm.trans hlocation')
  rfl

/-- The reports that name a file are those of the events that name it. -/
lemma reports_of_name {log : List Report} {events : List Event}
    (h : List.Forall₂ Report.Is log events) (name : String) :
    List.Forall₂ Report.Is (log.filter (·.location.file == name))
      (events.filter (·.span.source.name == name)) := by
  induction h with
  | nil => exact .nil
  | @cons report event log events hhead _ ih =>
    rw [List.filter_cons, List.filter_cons, hhead.file]
    split
    · exact .cons hhead ih
    · exact ih

/-- In a run on one source map for all texts, what is printed under a name and what is reported
about it, with lines and columns, is what a run on the texts of that name prints and reports. -/
theorem execute_independent {Map : Type} {maps : SourceMap Map} (hmaps : maps.Lawful)
    (html : List Text) {css : List (String × Text)} (hsize : textsSize css < 2 ^ 31)
    (settings : Settings) (name : String) :
    ∃ outputs log, execute maps settings (stepsOf html css) = .ok (outputs, log) ∧
      execute maps settings (stepsOf html (textsOf name css)) =
        .ok (outputs.filter (·.name == name), log.filter (·.location.file == name)) := by
  have hpart := Nat.lt_of_le_of_lt (textsSize_textsOf_le css name) hsize
  obtain ⟨log, hrun, hlog⟩ := execute_stepsOf html settings hmaps hsize
  obtain ⟨reports, hpartRun, hreports⟩ := execute_stepsOf html settings hmaps hpart
  refine ⟨_, log, hrun, ?_⟩
  rw [log_prune_textsOf] at hreports
  rw [hpartRun, result_prune_textsOf,
    List.left_unique_forall₂' Report.leftUnique hreports (reports_of_name hlog name)]

end Checked

end CssPrune
