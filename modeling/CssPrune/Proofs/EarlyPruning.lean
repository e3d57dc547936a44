import CssPrune.Proofs.Runs
import CssPrune.Prune

/-!
# Pruning early

Once all documents are added, rules may be removed at any time: the outputs at the end of the run
stay the same (`Session.result_pruneAndPrint_early_prunes`). A rule that was removed comes back
behind the others if it is added again, but it is removed again at the end, and the rules that are
kept never move: their names and scopes stay where they are even when nothing is left in them.

So two sessions count as alike if they hold the same rules once those that are not used are removed
(`Session.AlikePruned`). What is kept of added rules depends on the kept rules alone, which makes
each step that adds rules keep sessions alike, and removing rules from one of the two does not show.
-/

namespace CssPrune

/-! ## Insertion and removal -/

namespace Stylesheet

/-- Inserts what was read of one rule if its selector list is kept. Its scope is there afterwards
either way. -/
def insertKept (keep : Text → Bool) (sheet : Stylesheet) (entry : Entry) : Stylesheet :=
  ⟨sheet.scopes.update entry.scope fun rules? =>
    if keep entry.selector then extendRules entry rules? else rules?.getD .empty⟩

variable (keep : Text → Bool) (sheet : Stylesheet)

/-- What is kept after an insertion is what is kept of the entry behind what was kept. -/
lemma filter_insert (entry : Entry) :
    (sheet.insert entry).filter keep = (sheet.filter keep).insertKept keep entry := by
  apply congrArg Stylesheet.mk
  apply OrderedMap.mapValues_update
  intro rules?
  rw [OrderedMap.filterKeys_update]
  cases rules? <;> rfl

/-- What is kept after insertions is what is kept of the entries behind what was kept. -/
lemma filter_insertAll (entries : List Entry) :
    (sheet.insertAll entries).filter keep =
      entries.foldl (insertKept keep) (sheet.filter keep) := by
  induction entries generalizing sheet with
  | nil => rfl
  | cons entry entries ih =>
    have hrest := ih (sheet.insert entry)
    rw [filter_insert] at hrest
    exact hrest

/-- A second removal removes nothing. -/
lemma filter_filter : (sheet.filter keep).filter keep = sheet.filter keep := by
  simp [filter, OrderedMap.mapValues]

end Stylesheet

namespace Sheets

variable {keep : Text → Bool}

/-- What is kept after insertions under a name is what is kept of them behind what was kept. -/
lemma filter_insertAll (sheets : Sheets) (name : String) (entries : List Entry) :
    (sheets.insertAll name entries).filter keep =
      ⟨(sheets.filter keep).byName.update name fun sheet? =>
        entries.foldl (Stylesheet.insertKept keep) (sheet?.getD .empty)⟩ := by
  apply congrArg Sheets.mk
  apply OrderedMap.mapValues_update
  intro sheet?
  rw [Stylesheet.filter_insertAll]
  cases sheet? <;> rfl

/-- What is kept of added rules depends on the rules that were kept alone. -/
lemma filter_insertAll_congr {first second : Sheets} (h : first.filter keep = second.filter keep)
    (name : String) (entries : List Entry) :
    (first.insertAll name entries).filter keep = (second.insertAll name entries).filter keep := by
  rw [filter_insertAll, filter_insertAll, h]

/-- A second removal removes nothing. -/
lemma filter_filter (sheets : Sheets) : (sheets.filter keep).filter keep = sheets.filter keep := by
  simp [filter, OrderedMap.mapValues, Stylesheet.filter_filter]

end Sheets

namespace Session

/-! ## Sessions that are alike once pruned -/

/-- Two sessions go on in the same way, and hold the same rules once those that are not used are
removed. -/
structure AlikePruned (first second : Session) : Prop where
  settings : first.settings = second.settings
  references : first.references = second.references
  unnamed : first.unnamed = second.unnamed
  left : first.sheets.filter first.live.isLive = second.sheets.filter second.live.isLive

variable {first second session : Session}

/-- A session is alike itself. -/
lemma AlikePruned.refl (session : Session) : AlikePruned session session := ⟨rfl, rfl, rfl, rfl⟩

/-- Sessions that are alike use the same selectors. -/
lemma AlikePruned.live (h : AlikePruned first second) : first.live = second.live := by
  rw [Session.live, Session.live, h.references, h.settings]

/-- An added stylesheet keeps two sessions alike. -/
lemma AlikePruned.addSheet (h : AlikePruned first second) (name : String) (css : Text) :
    AlikePruned (first.addSheet name css) (second.addSheet name css) where
  settings := by rw [settings_addSheet, settings_addSheet, h.settings]
  references := by rw [references_addSheet, references_addSheet, h.references]
  unnamed := by rw [unnamed_addSheet, unnamed_addSheet, h.unnamed]
  left := by
    have hleft := h.left
    rw [live_addSheet, live_addSheet, sheets_addSheet, sheets_addSheet]
    rw [← h.live] at hleft ⊢
    exact Sheets.filter_insertAll_congr hleft name _

/-- Removing the rules that are not used does not show. -/
lemma AlikePruned.prune (h : AlikePruned first second) : AlikePruned first.prune second where
  settings := (settings_prune first).trans h.settings
  references := (references_prune first).trans h.references
  unnamed := (unnamed_prune first).trans h.unnamed
  left := by
    rw [live_prune, sheets_prune, Sheets.filter_filter]
    exact h.left

/-- Added stylesheets keep two sessions alike once pruned. -/
lemma keptBySheets_alikePruned : KeptBySheets AlikePruned where
  unnamed h := h.unnamed
  numbered h _ := ⟨h.settings, h.references, rfl, h.left⟩
  addSheet h := h.addSheet

/-- A run without documents may leave out the steps that remove rules. -/
lemma AlikePruned.run (h : AlikePruned first second) {steps : List Step}
    (hsteps : ∀ step ∈ steps, step.isDocument = false) :
    AlikePruned (first.run steps) (second.run (steps.filter (!·.isPrune))) := by
  apply keptBySheets_alikePruned.run _ _ h
  · exact fun step hmem hkept => ⟨hsteps step hmem, hkept⟩
  · intro step _ hprune _ _ h
    obtain rfl := Step.eq_prune_of_isPrune hprune
    exact h.prune

/-- Sessions that are alike once pruned print the same. -/
lemma AlikePruned.result_pruneAndPrint (h : AlikePruned first second) :
    first.pruneAndPrint.result = second.pruneAndPrint.result := by
  show first.prune.outputs = second.prune.outputs
  rw [outputs, outputs, sheets_prune, sheets_prune, settings_prune, settings_prune, h.left,
    h.settings]

/-! ## Runs -/

/-- Without stylesheets there is nothing to remove. -/
lemma prune_of_no_sheets (h : session.sheets = .empty) : session.prune = session := by
  have hkept : session.sheets.filter session.live.isLive = session.sheets := by
    rw [h]
    rfl
  have hremovals : session.removals = [] := by
    rw [removals, h]
    rfl
  rw [prune, hkept, hremovals, ite_self, report]
  split
  · rfl
  · rw [List.append_nil]

/-- As long as there are only documents, the steps that remove rules may be left out. -/
lemma run_of_no_sheets (h : session.sheets = .empty) {steps : List Step}
    (hsteps : ∀ step ∈ steps, (step.isDocument || step.isPrune) = true) :
    session.run steps = session.run (steps.filter (!·.isPrune)) := by
  suffices hboth : session.run steps = session.run (steps.filter (!·.isPrune)) ∧
      (session.run steps).sheets = .empty from hboth.1
  refine rel_run_filter (r := fun first second => first = second ∧ first.sheets = .empty) ?_ ?_
    ⟨rfl, h⟩
  · rintro step hmem hkept first _ ⟨rfl, hempty⟩
    have hdocument := hsteps step hmem
    rw [hkept, Bool.or_false] at hdocument
    obtain ⟨html, rfl⟩ := Step.exists_eq_document_of_isDocument hdocument
    exact ⟨rfl, hempty⟩
  · rintro step - hprune first _ ⟨rfl, hempty⟩
    obtain rfl := Step.eq_prune_of_isPrune hprune
    have hsame := prune_of_no_sheets hempty
    exact ⟨hsame, (congrArg Session.sheets hsame).trans hempty⟩

/-- Whatever the stylesheets are and wherever rules are removed, a run whose documents all come
first prints what it prints if rules are removed at the end alone. -/
theorem result_pruneAndPrint_early_prunes (settings : Settings) {documents sheets : List Step}
    (hdocuments : ∀ step ∈ documents, (step.isDocument || step.isPrune) = true)
    (hsheets : ∀ step ∈ sheets, step.isDocument = false) :
    ((start settings).run (documents ++ sheets)).pruneAndPrint.result =
      ((start settings).run ((documents ++ sheets).filter (!·.isPrune))).pruneAndPrint.result := by
  have hempty : (start settings).sheets = .empty := rfl
  rw [List.filter_append, run, run, List.foldl_append, List.foldl_append, ← run, ← run, ← run,
    ← run, run_of_no_sheets hempty hdocuments]
  exact ((AlikePruned.refl _).run hsheets).result_pruneAndPrint

/-- A rule that is removed comes back, and a scope and a stylesheet are emptied before rules are
added to them again. -/
theorem result_pruneAndPrint_early_prunes_back :
    let documents : List Step := [.document "<a class=\"b\">".toList, .prune]
    let sheets : List Step :=
      [.sheet "a.css" "p\x7bx\x7d a\x7by\x7d @media q\x7bp\x7bx\x7d\x7d".toList, .prune,
        .inline "p\x7bx\x7d".toList, .prune,
        .sheet "a.css" ".b\x7bz\x7d p\x7by\x7d a\x7bx\x7d @media q\x7ba\x7by\x7d\x7d".toList]
    ((start {}).run (documents ++ sheets)).pruneAndPrint.result =
      ((start {}).run ((documents ++ sheets).filter (!·.isPrune))).pruneAndPrint.result :=
  result_pruneAndPrint_early_prunes {} (by decide) (by decide)

end Session

end CssPrune
