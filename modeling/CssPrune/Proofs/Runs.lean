import CssPrune.Proofs.Listing
import CssPrune.Proofs.StoredText
import CssPrune.Session

/-!
# Runs

A run takes its steps in any order. Whatever they are, the stylesheets it holds are well formed
(`Session.wellFormed_run`): no name, scope or selector list occurs twice at its level, the texts
can stand where they stand, and no rule is without declarations. What holds of every entry of a map
is kept by the updates that keep it at their key, so each level follows from the one below.
-/

namespace CssPrune

namespace Stylesheet

/-- No scope and no selector list of a scope occurs twice, `q` holds of every scope and `p` of every
rule. -/
def Holds (q : Scope → Prop) (p : Text → Rule → Prop) (sheet : Stylesheet) : Prop :=
  sheet.scopes.Holds fun scope rules => q scope ∧ rules.Holds p

/-- An entry that can be inserted: `q` holds of its scope, and `p` of its rule when it is made and
when it is extended. -/
structure Fits (q : Scope → Prop) (p : Text → Rule → Prop) (entry : Entry) : Prop where
  scope : q entry.scope
  rule : ∀ rule?, (∀ rule ∈ rule?, p entry.selector rule) →
    p entry.selector (extendRule entry.declarations entry.span rule?)

variable {q : Scope → Prop} {p : Text → Rule → Prop} {sheet : Stylesheet}

/-- Everything holds of the rules of an empty stylesheet. -/
lemma holds_empty : empty.Holds q p := OrderedMap.holds_empty

/-- What holds of every rule holds after an insertion that fits. -/
lemma Holds.insert (h : sheet.Holds q p) {entry : Entry} (hentry : Fits q p entry) :
    (sheet.insert entry).Holds q p := by
  apply OrderedMap.Holds.update h
  intro rules? hrules
  have hbase : (rules?.getD .empty).Holds p := by
    cases rules? with
    | none => exact OrderedMap.holds_empty
    | some rules => exact (hrules rules rfl).2
  exact ⟨hentry.scope, OrderedMap.Holds.update hbase hentry.rule⟩

/-- What holds of every rule holds after insertions that fit. -/
lemma Holds.insertAll (h : sheet.Holds q p) {entries : List Entry}
    (hentries : ∀ entry ∈ entries, Fits q p entry) : (sheet.insertAll entries).Holds q p := by
  induction entries generalizing sheet with
  | nil => exact h
  | cons entry entries ih =>
    obtain ⟨hentry, hrest⟩ := List.forall_mem_cons.1 hentries
    exact ih (h.insert hentry) hrest

/-- What holds of every rule holds of those that are kept. -/
lemma Holds.filter (h : sheet.Holds q p) (keep : Text → Bool) : (sheet.filter keep).Holds q p := by
  apply OrderedMap.Holds.mapValues h
  rintro scope rules ⟨hscope, hrules⟩
  exact ⟨hscope, hrules.filterKeys keep⟩

/-- What holds of every rule holds of a rule of the stylesheet. -/
lemma Holds.of_mem_rules (h : sheet.Holds q p) {selector : Text} {rule : Rule}
    (hmem : (selector, rule) ∈ sheet.rules) : p selector rule := by
  obtain ⟨rules, hrules, hrule⟩ := List.mem_flatMap.1 hmem
  obtain ⟨⟨scope, _⟩, hscope, rfl⟩ := List.mem_map.1 hrules
  exact (h.entry scope _ hscope).2.entry selector rule hrule

end Stylesheet

/-! ## Well formed stylesheets -/

/-- A rule has declarations, each of which can stand as such. -/
structure Rule.WellFormed (rule : Rule) : Prop where
  nonempty : rule.declarations ≠ []
  declarations : ∀ text ∈ rule.declarations, IsDeclarationText text

/-- No selector list occurs twice, and the texts can stand where they stand. -/
def RuleSet.WellFormed (rules : RuleSet) : Prop :=
  OrderedMap.Holds (fun selector rule => IsSelectorText selector ∧ rule.WellFormed) rules

/-- No scope occurs twice, and its query and its rules are well formed. -/
def Stylesheet.WellFormed (sheet : Stylesheet) : Prop :=
  sheet.scopes.Holds fun scope rules => scope.WellFormed ∧ rules.WellFormed

/-- No name occurs twice, and the stylesheets are well formed. -/
def Sheets.WellFormed (sheets : Sheets) : Prop :=
  sheets.byName.Holds fun _ sheet => sheet.WellFormed

/-- A rule that is made or extended by declarations is well formed. -/
lemma Rule.wellFormed_extendRule {declarations : Text} (h : IsDeclarationText declarations)
    (span : Span) {rule? : Option Rule} (hrule : ∀ rule ∈ rule?, rule.WellFormed) :
    (Stylesheet.extendRule declarations span rule?).WellFormed := by
  cases rule? with
  | none =>
    refine ⟨List.cons_ne_nil _ _, fun text hmem => ?_⟩
    obtain rfl := List.mem_singleton.1 hmem
    exact h
  | some rule =>
    refine ⟨by simp [Stylesheet.extendRule], fun text hmem => ?_⟩
    rcases List.mem_append.1 hmem with hmem | hmem
    · exact (hrule rule rfl).declarations text hmem
    · obtain rfl := List.mem_singleton.1 hmem
      exact h

namespace Stylesheet

/-- An empty stylesheet is well formed. -/
lemma wellFormed_empty : empty.WellFormed := holds_empty

/-- Inserting well formed entries keeps a stylesheet well formed. -/
lemma WellFormed.insertAll {sheet : Stylesheet} (h : sheet.WellFormed) {entries : List Entry}
    (hentries : ∀ entry ∈ entries, entry.content.WellFormed) :
    (sheet.insertAll entries).WellFormed := by
  apply Holds.insertAll h
  intro entry hmem
  have hentry := hentries entry hmem
  refine ⟨hentry.scope, fun rule? hrule => ⟨hentry.selector, ?_⟩⟩
  exact Rule.wellFormed_extendRule hentry.declarations entry.span fun rule hin => (hrule rule hin).2

/-- A removal keeps a stylesheet well formed. -/
lemma WellFormed.filter {sheet : Stylesheet} (h : sheet.WellFormed) (keep : Text → Bool) :
    (sheet.filter keep).WellFormed := Holds.filter h keep

end Stylesheet

/-- What is read from a source is well formed. -/
lemma Reading.wellFormed_ofSource (source : Source) :
    ∀ entry ∈ (Reading.ofSource source).entries, entry.content.WellFormed := by
  intro entry hentry
  have hmem : entry.content ∈ (Reading.ofSource source).contents := List.mem_map_of_mem hentry
  rw [Reading.contents_ofSource] at hmem
  exact Css.wellFormed_of_mem_sheetContents hmem

namespace Sheets

/-- Sheets without a stylesheet are well formed. -/
lemma wellFormed_empty : empty.WellFormed := OrderedMap.holds_empty

/-- Inserting well formed entries under a name keeps the stylesheets well formed. -/
lemma WellFormed.insertAll {sheets : Sheets} (h : sheets.WellFormed) (name : String)
    {entries : List Entry} (hentries : ∀ entry ∈ entries, entry.content.WellFormed) :
    (sheets.insertAll name entries).WellFormed := by
  apply OrderedMap.Holds.update h
  intro sheet? hsheet
  have hbase : (sheet?.getD .empty).WellFormed := by
    cases sheet? with
    | none => exact Stylesheet.wellFormed_empty
    | some sheet => exact hsheet sheet rfl
  exact hbase.insertAll hentries

/-- A removal keeps the stylesheets well formed. -/
lemma WellFormed.filter {sheets : Sheets} (h : sheets.WellFormed) (keep : Text → Bool) :
    (sheets.filter keep).WellFormed := by
  apply OrderedMap.Holds.mapValues h
  intro _ sheet hsheet
  exact hsheet.filter keep

end Sheets

/-! ## Steps -/

/-- What a run can do next. -/
inductive Step where
  | document (html : Text)
  | sheet (name : String) (css : Text)
  | inline (css : Text)
  | prune

namespace Step

/-- Whether a step adds a document. -/
def isDocument : Step → Bool
  | document _ => true
  | _ => false

/-- Whether a step removes rules. -/
def isPrune : Step → Bool
  | prune => true
  | _ => false

/-- There is one step that removes rules. -/
lemma eq_prune_of_isPrune {step : Step} (h : step.isPrune = true) : step = .prune := by
  cases step with
  | prune => rfl
  | document html => cases h
  | sheet name css => cases h
  | inline css => cases h

/-- A step that adds a document adds some text. -/
lemma exists_eq_document_of_isDocument {step : Step} (h : step.isDocument = true) :
    ∃ html, step = .document html := by
  cases step with
  | document html => exact ⟨html, rfl⟩
  | sheet name css => cases h
  | inline css => cases h
  | prune => cases h

end Step

namespace Session

/-- Takes a step. -/
def step (session : Session) : Step → Session
  | .document html => session.addDocument html
  | .sheet name css => session.addSheet name css
  | .inline css => (session.addInline css).2
  | .prune => session.prune

/-- Takes steps one after the other. -/
def run (session : Session) (steps : List Step) : Session :=
  steps.foldl step session

/-- A report leaves the stylesheets as they are. -/
@[simp]
lemma sheets_report (session : Session) (events : List Event) :
    (session.report events).sheets = session.sheets := by
  rw [report]
  split <;> rfl

/-- A report leaves the settings as they are. -/
@[simp]
lemma settings_report (session : Session) (events : List Event) :
    (session.report events).settings = session.settings := by
  rw [report]
  split <;> rfl

/-- A report leaves the references as they are. -/
@[simp]
lemma references_report (session : Session) (events : List Event) :
    (session.report events).references = session.references := by
  rw [report]
  split <;> rfl

/-- A report leaves the number of stylesheets without a name as it is. -/
@[simp]
lemma unnamed_report (session : Session) (events : List Event) :
    (session.report events).unnamed = session.unnamed := by
  rw [report]
  split <;> rfl

/-- A report adds its events to the log unless the session is quiet. -/
lemma log_report (session : Session) (events : List Event) :
    (session.report events).log =
      session.log ++ if session.settings.quiet then [] else events := by
  rw [report]
  split <;> simp

/-- An added stylesheet has its entries inserted under its name. -/
@[simp]
lemma sheets_addSheet (session : Session) (name : String) (css : Text) :
    (session.addSheet name css).sheets =
      session.sheets.insertAll name (Reading.ofSource ⟨name, css⟩).entries := by
  rw [addSheet, sheets_report]

/-- A removal filters the stylesheets by the live set. -/
@[simp]
lemma sheets_prune (session : Session) :
    session.prune.sheets = session.sheets.filter session.live.isLive := by
  rw [prune, sheets_report]

section Fields

variable (session : Session) (name : String) (css : Text)

/-- An added stylesheet leaves the settings as they are. -/
lemma settings_addSheet : (session.addSheet name css).settings = session.settings :=
  settings_report _ _

/-- An added stylesheet leaves the references as they are. -/
lemma references_addSheet : (session.addSheet name css).references = session.references :=
  references_report _ _

/-- An added stylesheet leaves the number of those without a name as it is. -/
lemma unnamed_addSheet : (session.addSheet name css).unnamed = session.unnamed :=
  unnamed_report _ _

/-- An added stylesheet reports its warnings unless the session is quiet. -/
lemma log_addSheet_append :
    (session.addSheet name css).log =
      session.log ++
        if session.settings.quiet then [] else (Reading.ofSource ⟨name, css⟩).warnings :=
  log_report _ _

/-- An added stylesheet leaves the live set as it is. -/
lemma live_addSheet : (session.addSheet name css).live = session.live := by
  rw [live, live, settings_addSheet, references_addSheet]

/-- A removal leaves the settings as they are. -/
lemma settings_prune : session.prune.settings = session.settings := settings_report _ _

/-- A removal leaves the references as they are. -/
lemma references_prune : session.prune.references = session.references := references_report _ _

/-- A removal leaves the number of stylesheets without a name as it is. -/
lemma unnamed_prune : session.prune.unnamed = session.unnamed := unnamed_report _ _

/-- A removal reports the removed rules if the session is verbose and not quiet. -/
lemma log_prune_append :
    session.prune.log =
      session.log ++
        if session.settings.quiet then []
        else if session.settings.verbose then session.removals else [] :=
  log_report _ _

/-- A removal leaves the live set as it is. -/
lemma live_prune : session.prune.live = session.live := by
  rw [live, live, settings_prune, references_prune]

end Fields

/-- What no single addition changes, many of them leave as it is. -/
lemma apply_foldl {α β : Type} (f : Session → β) {add : Session → α → Session}
    (h : ∀ session a, f (add session a) = f session) (session : Session) (items : List α) :
    f (items.foldl add session) = f session := by
  induction items generalizing session with
  | nil => rfl
  | cons a items ih => exact (ih _).trans (h session a)

/-- Added documents leave the log as it is. -/
lemma log_foldl_addDocument (session : Session) (html : List Text) :
    (html.foldl addDocument session).log = session.log := by
  have hstep (session : Session) (document : Text) :
      (session.addDocument document).log = session.log := rfl
  exact apply_foldl log hstep session html

/-- Added documents leave the stylesheets and the settings as they are. -/
lemma foldl_addDocument (session : Session) (html : List Text) :
    (html.foldl addDocument session).sheets = session.sheets ∧
      (html.foldl addDocument session).settings = session.settings := by
  have hsheets (session : Session) (document : Text) :
      (session.addDocument document).sheets = session.sheets := rfl
  have hsettings (session : Session) (document : Text) :
      (session.addDocument document).settings = session.settings := rfl
  exact ⟨apply_foldl sheets hsheets session html, apply_foldl settings hsettings session html⟩

/-- Two runs stay related if one of them leaves out steps that do not show in the relation. -/
lemma rel_run_filter {r : Session → Session → Prop} {skipped : Step → Bool} {steps : List Step}
    (hkept : ∀ step ∈ steps, skipped step = false → ∀ first second, r first second →
      r (first.step step) (second.step step))
    (hskipped : ∀ step ∈ steps, skipped step = true → ∀ first second, r first second →
      r (first.step step) second)
    {first second : Session} (h : r first second) :
    r (first.run steps) (second.run (steps.filter (!skipped ·))) := by
  induction steps generalizing first second with
  | nil => exact h
  | cons step steps ih =>
    obtain ⟨hkept, hkeptRest⟩ := List.forall_mem_cons.1 hkept
    obtain ⟨hskipped, hskippedRest⟩ := List.forall_mem_cons.1 hskipped
    cases hstep : skipped step with
    | true =>
      rw [List.filter_cons_of_neg (by simp [hstep])]
      exact ih hkeptRest hskippedRest (hskipped hstep first second h)
    | false =>
      rw [List.filter_cons_of_pos (by simp [hstep])]
      exact ih hkeptRest hskippedRest (hkept hstep first second h)

/-- A relation of two sessions that lasts as both of them get the same stylesheets. -/
structure KeptBySheets (r : Session → Session → Prop) : Prop where
  unnamed : ∀ {first second}, r first second → first.unnamed = second.unnamed
  numbered : ∀ {first second}, r first second →
    ∀ unnamed, r { first with unnamed } { second with unnamed }
  addSheet : ∀ {first second}, r first second →
    ∀ name css, r (first.addSheet name css) (second.addSheet name css)

/-- Such a relation lasts through a step that adds rules. -/
lemma KeptBySheets.step {r : Session → Session → Prop} (hr : KeptBySheets r) {step : Step}
    (hdocument : step.isDocument = false) (hprune : step.isPrune = false) {first second : Session}
    (h : r first second) : r (first.step step) (second.step step) := by
  cases step with
  | document html => cases hdocument
  | sheet name css => exact hr.addSheet h name css
  | inline css =>
    have hnext := hr.addSheet (hr.numbered h (second.unnamed + 1)) (inlineName second.unnamed) css
    rw [← hr.unnamed h] at hnext
    have hsecond : (second.addInline css).2 =
        { second with unnamed := first.unnamed + 1 }.addSheet (inlineName first.unnamed) css := by
      rw [hr.unnamed h]
      rfl
    show r (first.addInline css).2 (second.addInline css).2
    rw [hsecond]
    exact hnext
  | prune => cases hprune

/-- Such a relation lasts through two runs if one of them leaves out steps that do not show in it,
and the others add rules. -/
lemma KeptBySheets.run {r : Session → Session → Prop} (hr : KeptBySheets r)
    {skipped : Step → Bool} {steps : List Step}
    (hkept : ∀ step ∈ steps, skipped step = false → step.isDocument = false ∧ step.isPrune = false)
    (hskipped : ∀ step ∈ steps, skipped step = true → ∀ first second, r first second →
      r (first.step step) second)
    {first second : Session} (h : r first second) :
    r (first.run steps) (second.run (steps.filter (!skipped ·))) := by
  apply rel_run_filter _ hskipped h
  intro step hmem hstep first second h
  obtain ⟨hdocument, hprune⟩ := hkept step hmem hstep
  exact hr.step hdocument hprune h

/-- A step keeps the stylesheets well formed. -/
lemma wellFormed_step {session : Session} (h : session.sheets.WellFormed) (step : Step) :
    (session.step step).sheets.WellFormed := by
  cases step with
  | document html => exact h
  | sheet name css =>
    show (session.addSheet name css).sheets.WellFormed
    rw [sheets_addSheet]
    exact h.insertAll name (Reading.wellFormed_ofSource _)
  | inline css =>
    show (addSheet _ _ css).sheets.WellFormed
    rw [sheets_addSheet]
    exact h.insertAll _ (Reading.wellFormed_ofSource _)
  | prune =>
    show session.prune.sheets.WellFormed
    rw [sheets_prune]
    exact h.filter _

/-- A stylesheet that is added to none or to an empty one holds the rules of its text, grouped. -/
lemma listing_addSheet {session : Session} {name : String}
    (h : ∀ sheet, session.sheets.sheet? name = some sheet → sheet = .empty) (css : Text) :
    ((session.addSheet name css).sheets.sheet? name).map Stylesheet.listing =
      some (gatherContents (Css.sheetContents (Css.withoutComments (Css.unifyLineEnds css)))) := by
  have hempty : (session.sheets.byName.get? name).getD .empty = .empty := by
    cases hget : session.sheets.byName.get? name with
    | none => rfl
    | some sheet => exact h sheet hget
  rw [sheets_addSheet, Sheets.insertAll, Sheets.sheet?, OrderedMap.get?_update,
    if_pos (beq_self_eq_true name), Option.map_some, hempty, Stylesheet.listing_insertAll,
    ← Reading.contents_ofSource ⟨name, css⟩]
  rfl

/-- The log grows by the warnings about a stylesheet only. -/
lemma log_addSheet (session : Session) (name : String) {css : Text}
    (h : Css.sheetNotices (Css.unifyLineEnds css) = []) :
    (session.addSheet name css).log = session.log := by
  have hwarnings : (Reading.ofSource ⟨name, css⟩).warnings = [] := by
    rw [← List.map_eq_nil_iff, ← Reading.notices, Reading.notices_ofSource]
    exact h
  rw [log_addSheet_append, hwarnings, ite_self, List.append_nil]

/-- The stylesheets of a run are well formed, whatever its steps. -/
theorem wellFormed_run {session : Session} (h : session.sheets.WellFormed) (steps : List Step) :
    (session.run steps).sheets.WellFormed := by
  induction steps generalizing session with
  | nil => exact h
  | cons step steps ih => exact ih (wellFormed_step h step)

/-- The stylesheets at the start are well formed. -/
lemma wellFormed_start (settings : Settings) : (start settings).sheets.WellFormed :=
  Sheets.wellFormed_empty

end Session

end CssPrune
