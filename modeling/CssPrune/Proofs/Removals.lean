import CssPrune.Proofs.EarlyPruning
import CssPrune.Proofs.Insertions

/-!
# What is removed

Removing the rules that are not used leaves every stylesheet and every scope, and the other rules as
they are and in their order. In a run that reports removals there is one note for each rule that is
gone. It points at where the selector list begins in the text that brought the rule, and that is the
text that brought it last, if it was removed before (`Session.prune_removes`). A second removal
finds nothing.
-/

namespace CssPrune

open Css

/-- The note on the removal of a rule. -/
def PlacedRule.removal (placed : PlacedRule) : Event :=
  ⟨.removed placed.selector, placed.rule.span⟩

namespace Sheets

/-- The names, each with the scopes of its stylesheet, in order. -/
def sections (sheets : Sheets) : List (String × List Scope) :=
  sheets.byName.entries.map fun named => (named.1, named.2.scopes.keys)

variable (sheets : Sheets) (keep : Text → Bool)

/-- A removal keeps the sections. -/
lemma sections_filter : (sheets.filter keep).sections = sheets.sections := by
  simp [sections, filter, OrderedMap.mapValues, Stylesheet.filter, OrderedMap.keys,
    Function.comp_def]

/-- A removal keeps the rules whose selector lists it keeps, where they stand. -/
lemma placed_filter :
    (sheets.filter keep).placed = sheets.placed.filter fun placed => keep placed.selector := by
  simp only [placed, filter, Stylesheet.filter, OrderedMap.mapValues, OrderedMap.filterKeys,
    List.flatMap_map, List.filter_flatMap, List.filter_map]
  rfl

/-- The rules of the stylesheets are those that stand somewhere, in order. -/
lemma rules_eq : sheets.rules = sheets.placed.map fun placed => (placed.selector, placed.rule) := by
  simp [rules, Stylesheet.rules, placed, OrderedMap.values, List.flatMap_map, List.map_flatMap,
    Function.comp_def]

end Sheets

/-! ## One rule for each place -/

/-- Without repeated keys, and without repeated items of a key, no pair of both is repeated. -/
lemma nodup_flatMap_keys {κ β γ : Type} {entries : List (κ × β)}
    (h : (entries.map (·.1)).Nodup) {items : β → List γ}
    (hitems : ∀ entry ∈ entries, (items entry.2).Nodup) :
    (entries.flatMap fun entry => (items entry.2).map (entry.1, ·)).Nodup := by
  induction entries with
  | nil => exact List.nodup_nil
  | cons entry entries ih =>
    obtain ⟨hkey, hkeys⟩ := List.nodup_cons.1 h
    obtain ⟨hentry, hentries⟩ := List.forall_mem_cons.1 hitems
    have hfirst : ((items entry.2).map (entry.1, ·)).Nodup :=
      hentry.map fun _ _ heq => (Prod.mk.inj heq).2
    rw [List.flatMap_cons]
    refine hfirst.append (ih hkeys hentries) fun pair hpair hrest => ?_
    obtain ⟨item, -, rfl⟩ := List.mem_map.1 hpair
    obtain ⟨other, hother, hmem⟩ := List.mem_flatMap.1 hrest
    obtain ⟨_, -, heq⟩ := List.mem_map.1 hmem
    exact hkey (List.mem_map.2 ⟨other, hother, (Prod.mk.inj heq).1⟩)

namespace Stylesheet

/-- The scopes and selector lists of the rules, in order. -/
def keys (sheet : Stylesheet) : List (Scope × Text) :=
  sheet.scopes.entries.flatMap fun group => group.2.keys.map (group.1, ·)

/-- No place of a well formed stylesheet has two rules. -/
lemma WellFormed.nodup_keys {sheet : Stylesheet} (h : sheet.WellFormed) : sheet.keys.Nodup :=
  nodup_flatMap_keys h.nodup fun group hgroup => (h.entry group.1 group.2 hgroup).2.nodup

end Stylesheet

/-- No place of well formed stylesheets has two rules. -/
lemma Sheets.WellFormed.nodup_placed {sheets : Sheets} (h : sheets.WellFormed) :
    (sheets.placed.map PlacedRule.key).Nodup := by
  have hkeys : sheets.placed.map PlacedRule.key =
      sheets.byName.entries.flatMap fun named => named.2.keys.map (named.1, ·) := by
    simp [Sheets.placed, Stylesheet.keys, OrderedMap.keys, PlacedRule.key, List.map_flatMap,
      Function.comp_def]
  rw [hkeys]
  exact nodup_flatMap_keys h.nodup fun named hnamed =>
    Stylesheet.WellFormed.nodup_keys (h.entry named.1 named.2 hnamed)

/-! ## Where a removed rule began -/

/-- A span is the first one that a source gives to a selector list in a scope. It is that of a run
of this selector list, and begins with the first character of the run. -/
structure Span.IsFirst (span : Span) (source : Source) (scope : Scope) (selector : Text) :
    Prop where
  said : source.firstSpan? scope selector = some span
  origin : span.source = source
  begins : ∃ first rest, source.SelectorRun (first :: rest) ∧
    PlacedChar.collapse (first :: rest) = selector ∧ span = .covering source (first :: rest) ∧
    span.start = first.offset ∧ StandsIn source.text first

/-- The first span of a selector list is that of its first run. -/
lemma Span.isFirst_of_firstSpan? {source : Source} {scope : Scope} {selector : Text} {span : Span}
    (h : source.firstSpan? scope selector = some span) : span.IsFirst source scope selector := by
  obtain ⟨run, hrun, hselector, rfl⟩ := Source.exists_of_firstSpan? h
  obtain ⟨first, rest, rfl⟩ := List.exists_cons_of_ne_nil hrun.ne_nil
  refine ⟨h, Span.source_covering source _, first, rest, hrun, hselector, rfl, ?_, ?_⟩
  · obtain ⟨last, hlast⟩ := Option.isSome_iff_exists.1 (List.getLast?_isSome.2 hrun.ne_nil)
    rw [Span.covering, hlast]
    rfl
  · have hkept : first ∈ source.kept := hrun.isInfix.subset List.mem_cons_self
    have hsublist : source.kept.Sublist (PlacedChar.ofText source.text) :=
      Checked.sublist_stripFrom [] (PlacedChar.ofText source.text)
    exact @standsIn_of_mem_placeFrom [] source.text first (hsublist.subset hkept)

namespace Session

/-! ## Removing rules -/

/-- The rules that are not used, in order. -/
def unused (session : Session) : List PlacedRule :=
  session.sheets.placed.filter fun placed => !session.live.isLive placed.selector

/-- The removals of a session are about its unused rules. -/
lemma removals_eq (session : Session) :
    session.removals = session.unused.map PlacedRule.removal := by
  rw [removals, unused, Sheets.rules_eq, List.filter_map, List.map_map]
  rfl

/-- What was removed is not there to be removed again. -/
lemma unused_prune (session : Session) : session.prune.unused = [] := by
  rw [unused, live_prune, sheets_prune, Sheets.placed_filter, List.filter_filter,
    List.filter_eq_nil_iff]
  simp

/-- A second removal changes nothing. -/
lemma prune_prune (session : Session) : session.prune.prune = session.prune := by
  have hsheets : session.prune.sheets.filter session.prune.live.isLive = session.prune.sheets := by
    rw [live_prune, sheets_prune, Sheets.filter_filter]
  have hremovals : session.prune.removals = [] := by
    rw [removals_eq, unused_prune]
    rfl
  rw [prune, hsheets, hremovals, ite_self, report]
  split
  · rfl
  · rw [List.append_nil]

/-- A step keeps the settings. -/
lemma settings_step (session : Session) (step : Step) :
    (session.step step).settings = session.settings := by
  cases step with
  | document html => rfl
  | sheet name css => exact settings_addSheet session name css
  | inline css => exact settings_addSheet _ _ css
  | prune => exact settings_prune session

/-- A run keeps the settings. -/
lemma settings_run (session : Session) (steps : List Step) :
    (session.run steps).settings = session.settings := by
  induction steps generalizing session with
  | nil => rfl
  | cons step steps ih => exact (ih (session.step step)).trans (settings_step session step)

/-- What is not used is removed, and nothing else. Each rule that is gone is reported once, if
removals are reported, where the text that brought it last begins its selector list. -/
theorem prune_removes (settings : Settings) (steps : List Step) :
    let session := (start settings).run steps
    session.prune.sheets.sections = session.sheets.sections ∧
    session.prune.sheets.placed =
      session.sheets.placed.filter (fun placed => session.live.isLive placed.selector) ∧
    session.prune.log = session.log ++
      (if settings.verbose && !settings.quiet then session.unused.map PlacedRule.removal else []) ∧
    (session.unused.map PlacedRule.key).Nodup ∧
    (∀ placed ∈ session.unused, ∃ css,
      Brought (start settings) steps placed.name placed.scope placed.selector css ∧
      placed.rule.span.IsFirst ⟨placed.name, css⟩ placed.scope placed.selector) ∧
    session.prune.prune = session.prune := by
  intro session
  have hwell : session.sheets.WellFormed := wellFormed_run (wellFormed_start settings) steps
  have hsettings : session.settings = settings := settings_run (start settings) steps
  refine ⟨?_, ?_, ?_, ?_, fun placed hplaced => ?_, prune_prune session⟩
  · rw [sheets_prune, Sheets.sections_filter]
  · rw [sheets_prune, Sheets.placed_filter]
  · rw [log_prune_append, hsettings, removals_eq]
    cases settings.quiet <;> cases settings.verbose <;> rfl
  · exact hwell.nodup_placed.sublist (List.filter_sublist.map PlacedRule.key)
  · have hspan := Sheets.span?_of_mem_placed hwell (List.mem_filter.1 hplaced).1
    obtain ⟨css, hbrought, hfirst⟩ := exists_brought (span?_start settings _ _ _) hspan
    exact ⟨css, hbrought, Span.isFirst_of_firstSpan? hfirst⟩

end Session

end CssPrune
