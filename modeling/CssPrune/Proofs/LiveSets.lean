import CssPrune.Proofs.StoredSheets

/-!
# Comparing live sets

Documents and the whitelist serve to tell which selectors count as used, and nothing else. Of two
live sets the larger one keeps more rules of every scope and changes nothing else
(`prune_within`): a selector list is live as soon as one look-up succeeds, and no look-up has to
fail. Two runs that add the same stylesheets and end with the same live selectors print and report
the same, whatever their documents and their whitelists are
(`Session.pruneAndPrint_eq_of_same_live`).
-/

namespace CssPrune

/-! ## Live selectors -/

namespace LiveSet

/-- A selector counts as used if a document refers to it or the whitelist holds it. -/
instance : Membership Text LiveSet where
  mem live selector := selector ∈ live.references.tokens ∨ selector ∈ live.whitelist

/-- The live selectors of one set are live in another one. -/
instance : HasSubset LiveSet where
  Subset first second := ∀ selector ∈ first, selector ∈ second

variable {first second live : LiveSet} {selector list : Text}

/-- A selector is in a live set if the tokens or the whitelist hold it. -/
lemma mem_iff :
    selector ∈ live ↔ selector ∈ live.references.tokens ∨ selector ∈ live.whitelist := Iff.rfl

/-- A live set contains what is in it, and the universal selector. -/
lemma contains_iff : live.contains selector = true ↔ selector = universal ∨ selector ∈ live := by
  rw [contains, Bool.or_eq_true, Bool.or_eq_true, beq_iff_eq, References.contains_iff_mem,
    List.contains_iff_mem, or_assoc, mem_iff]

/-- A larger live set contains more. -/
lemma contains_mono (h : first ⊆ second) (hselector : first.contains selector = true) :
    second.contains selector = true := by
  rw [contains_iff] at hselector ⊢
  exact hselector.imp_right (h selector)

/-- A member that is live stays so in a larger live set. -/
lemma isLiveMember_mono (h : first ⊆ second) (hmember : first.isLiveMember selector = true) :
    second.isLiveMember selector = true := by
  rw [isLiveMember, Bool.or_eq_true] at hmember ⊢
  exact hmember.imp (contains_mono h) (contains_mono h)

/-- A selector list stays live when selectors are added. -/
lemma isLive_mono (h : first ⊆ second) (hlist : first.isLive list = true) :
    second.isLive list = true := by
  rw [isLive, List.any_eq_true] at hlist ⊢
  obtain ⟨member, hmember, hlive⟩ := hlist
  exact ⟨member, hmember, isLiveMember_mono h hlive⟩

/-- Only which selectors are live matters, not their order and not where they come from. -/
lemma isLive_congr (h : ∀ selector, selector ∈ first ↔ selector ∈ second) :
    first.isLive = second.isLive := by
  funext list
  rw [Bool.eq_iff_iff]
  exact ⟨isLive_mono fun selector => (h selector).1, isLive_mono fun selector => (h selector).2⟩

end LiveSet

/-! ## Tokens of documents -/

/-- Added documents add their tokens. -/
lemma mem_tokens_foldl_addDocument {session : Session} {html : List Text} {token : Text} :
    token ∈ (html.foldl Session.addDocument session).references.tokens ↔
      token ∈ session.references.tokens ∨
        ∃ document ∈ html, token ∈ Html.documentTokens document := by
  induction html generalizing session with
  | nil => simp
  | cons document html ih =>
    have hscan : token ∈ (session.addDocument document).references.tokens ↔
        token ∈ session.references.tokens ∨ token ∈ Html.documentTokens document :=
      References.mem_insertAll
    rw [List.foldl_cons, ih, hscan, or_assoc, List.exists_mem_cons_iff]

/-- More documents and a longer whitelist only add live selectors. -/
lemma liveSelectors_subset {html more : List Text} (hhtml : html ⊆ more) {settings : Settings}
    {whitelist : List String} (hwhitelist : settings.whitelist ⊆ whitelist) :
    liveSelectors html settings ⊆ liveSelectors more { settings with whitelist } := by
  intro selector hselector
  rcases hselector with htoken | hname
  · apply Or.inl
    rw [liveSelectors, Session.live, mem_tokens_foldl_addDocument] at htoken ⊢
    refine htoken.imp_right ?_
    rintro ⟨document, hdocument, hmem⟩
    exact ⟨document, hhtml hdocument, hmem⟩
  · apply Or.inr
    rw [liveSelectors, Session.live, (Session.foldl_addDocument _ html).2] at hname
    rw [liveSelectors, Session.live, (Session.foldl_addDocument _ more).2]
    exact List.map_subset _ hwhitelist hname

/-! ## Larger live sets -/

/-- The scopes of two stylesheets are the same in the same order, and what one has of the rules of a
scope is a part of what the other has, in its order and with its declarations. -/
def Stylesheet.Within (first second : Stylesheet) : Prop :=
  first.scopes.Related (fun rules others => rules.entries.Sublist others.entries) second.scopes

/-- The names are the same in the same order, and each stylesheet is within the other one of its
name. -/
def Sheets.Within (first second : Sheets) : Prop :=
  first.byName.Related Stylesheet.Within second.byName

/-- A removal that keeps more leaves the rules of one that keeps less among others. -/
lemma Stylesheet.filter_within (sheet : Stylesheet) {first second : Text → Bool}
    (h : ∀ selector, first selector = true → second selector = true) :
    (sheet.filter first).Within (sheet.filter second) := by
  apply OrderedMap.related_mapValues
  intro rules
  apply List.monotone_filter_right
  exact fun rule => h rule.1

/-- A removal by a larger live set leaves the rules of one by a smaller one among others. -/
lemma Sheets.filter_within (sheets : Sheets) {first second : LiveSet} (h : first ⊆ second) :
    (sheets.filter first.isLive).Within (sheets.filter second.isLive) := by
  apply OrderedMap.related_mapValues
  intro sheet
  apply sheet.filter_within
  exact fun _ => LiveSet.isLive_mono h

/-- Of two live sets the larger one leaves the same names and scopes in the same order, and in each
scope the rules that the other one leaves, in their order and with their declarations, among others.
So documents and whitelisted selectors that are added never remove a rule from the outputs. -/
theorem prune_within :
    (∀ (sheets : Sheets) (first second : LiveSet), first ⊆ second →
      (sheets.filter first.isLive).Within (sheets.filter second.isLive)) ∧
    ∀ (html more : List Text) (css : List (String × Text)) (settings : Settings)
      (whitelist : List String), html ⊆ more → settings.whitelist ⊆ whitelist →
        let widened := { settings with whitelist }
        (prune html css settings).result = (remaining html css settings).outputs settings ∧
          (prune more css widened).result = (remaining more css widened).outputs widened ∧
          (remaining html css settings).Within (remaining more css widened) := by
  refine ⟨fun sheets _ _ => sheets.filter_within, ?_⟩
  intro html more css settings whitelist hhtml hwhitelist widened
  refine ⟨result_prune_eq_outputs html css settings, result_prune_eq_outputs more css widened, ?_⟩
  have hsheets : (Session.ofTexts html css settings).sheets =
      (Session.ofTexts more css widened).sheets := by
    apply congrArg Sheets.mk
    apply congrArg OrderedMap.mk
    rw [Session.entries_ofTexts, Session.entries_ofTexts]
  rw [remaining, remaining, Session.sheets_prune, Session.sheets_prune, Session.live_ofTexts,
    Session.live_ofTexts, hsheets]
  exact Sheets.filter_within _ (liveSelectors_subset hhtml hwhitelist)

/-- A document and a whitelisted selector are added, and rules come back between the others. -/
theorem prune_within_added_document :
    let html := ["<a>".toList]
    let more := ["<p class=\"b\">".toList, "<a>".toList]
    let css := [("a.css",
      "a\x7bx\x7d .b\x7by\x7d i\x7bz\x7d @media q\x7bi\x7bx\x7d a\x7by\x7d\x7d".toList)]
    html ⊆ more ∧ ([] : List String) ⊆ ["i"] ∧
      (remaining html css {}).Within (remaining more css { whitelist := ["i"] }) := by
  intro html more css
  have hhtml : html ⊆ more := List.subset_cons_self _ _
  have hwhitelist : ([] : List String) ⊆ ["i"] := List.nil_subset _
  exact ⟨hhtml, hwhitelist, (prune_within.2 html more css {} ["i"] hhtml hwhitelist).2.2⟩

namespace Session

/-! ## Sessions that are alike but for their live sets -/

/-- The settings of a session but for the whitelist. -/
def unlisted (session : Session) : Settings := { session.settings with whitelist := [] }

/-- Two sessions differ at most in what counts as used. -/
structure Alike (first second : Session) : Prop where
  settings : first.unlisted = second.unlisted
  sheets : first.sheets = second.sheets
  unnamed : first.unnamed = second.unnamed
  log : first.log = second.log

variable {first second : Session}

/-- Sessions that are alike are quiet alike. -/
lemma Alike.quiet (h : Alike first second) : first.settings.quiet = second.settings.quiet := by
  show first.unlisted.quiet = second.unlisted.quiet
  rw [h.settings]

/-- Sessions that are alike are verbose alike. -/
lemma Alike.verbose (h : Alike first second) :
    first.settings.verbose = second.settings.verbose := by
  show first.unlisted.verbose = second.unlisted.verbose
  rw [h.settings]

/-- The whitelist does not show in what is printed of given stylesheets. -/
lemma Alike.outputs (h : Alike first second) (sheets : Sheets) :
    sheets.outputs first.settings = sheets.outputs second.settings := by
  show sheets.outputs first.unlisted = sheets.outputs second.unlisted
  rw [h.settings]

/-- A document that is added to one of two sessions keeps them alike. -/
lemma Alike.addDocument (h : Alike first second) (html : Text) :
    Alike (first.addDocument html) second := ⟨h.settings, h.sheets, h.unnamed, h.log⟩

/-- A stylesheet that is added to both of two sessions keeps them alike. -/
lemma Alike.addSheet (h : Alike first second) (name : String) (css : Text) :
    Alike (first.addSheet name css) (second.addSheet name css) where
  settings := by
    rw [unlisted, unlisted, settings_addSheet, settings_addSheet]
    exact h.settings
  sheets := by rw [sheets_addSheet, sheets_addSheet, h.sheets]
  unnamed := by rw [unnamed_addSheet, unnamed_addSheet, h.unnamed]
  log := by rw [log_addSheet_append, log_addSheet_append, h.log, h.quiet]

/-- Added stylesheets keep two sessions alike. -/
lemma keptBySheets_alike : KeptBySheets Alike where
  unnamed h := h.unnamed
  numbered h _ := ⟨h.settings, h.sheets, rfl, h.log⟩
  addSheet h := h.addSheet

/-- A run that removes no rules may leave out its documents. -/
lemma Alike.run (h : Alike first second) {steps : List Step}
    (hsteps : ∀ step ∈ steps, step.isPrune = false) :
    Alike (first.run steps) (second.run (steps.filter (!·.isDocument))) := by
  apply keptBySheets_alike.run _ _ h
  · exact fun step hmem hkept => ⟨hkept, hsteps step hmem⟩
  · intro step _ hdocument _ _ h
    obtain ⟨html, rfl⟩ := Step.exists_eq_document_of_isDocument hdocument
    exact h.addDocument html

/-- Sessions that are alike and use the same selectors print and report the same. -/
lemma Alike.pruneAndPrint (h : Alike first second)
    (hlive : ∀ selector, selector ∈ first.live ↔ selector ∈ second.live) :
    first.pruneAndPrint = second.pruneAndPrint := by
  have hsheets : first.prune.sheets = second.prune.sheets := by
    rw [sheets_prune, sheets_prune, LiveSet.isLive_congr hlive, h.sheets]
  have hremovals : first.removals = second.removals := by
    rw [removals, removals, LiveSet.isLive_congr hlive, h.sheets]
  have hresult : first.prune.outputs = second.prune.outputs := by
    rw [Session.outputs, Session.outputs, settings_prune, settings_prune, hsheets]
    exact h.outputs _
  have hlog : first.prune.log = second.prune.log := by
    rw [log_prune_append, log_prune_append, h.log, h.quiet, h.verbose, hremovals]
  rw [Session.pruneAndPrint, Session.pruneAndPrint, hresult, hlog]

/-- Two runs that add the same stylesheets in the same order, interleaved anyhow with documents, and
under settings that differ at most in the whitelist, print and report the same if the same selectors
are live at their ends. -/
theorem pruneAndPrint_eq_of_same_live (settings : Settings) (whitelist : List String)
    {first second : List Step} (hfirst : ∀ step ∈ first, step.isPrune = false)
    (hsecond : ∀ step ∈ second, step.isPrune = false)
    (hsheets : first.filter (!·.isDocument) = second.filter (!·.isDocument))
    (hlive : ∀ selector, selector ∈ ((start settings).run first).live ↔
      selector ∈ ((start { settings with whitelist }).run second).live) :
    ((start settings).run first).pruneAndPrint =
      ((start { settings with whitelist }).run second).pruneAndPrint := by
  have hstart : Alike (start settings) (start settings) := ⟨rfl, rfl, rfl, rfl⟩
  have hother : Alike (start { settings with whitelist }) (start settings) := ⟨rfl, rfl, rfl, rfl⟩
  have hone := hstart.run hfirst
  have htwo := hother.run hsecond
  rw [← hsheets] at htwo
  -- both runs are alike to the run of their common steps
  apply Alike.pruneAndPrint _ hlive
  constructor
  · exact hone.settings.trans htwo.settings.symm
  · exact hone.sheets.trans htwo.sheets.symm
  · exact hone.unnamed.trans htwo.unnamed.symm
  · exact hone.log.trans htwo.log.symm

/-- Two documents of which one repeats a part of the other against one of them and a whitelist, in
runs that report what they remove. -/
theorem pruneAndPrint_eq_of_same_live_whitelisted :
    let first : List Step :=
      [.document "<p class='c' class=\"b\">".toList,
        .sheet "a.css" "a\x7bx\x7d .b\x7by\x7d @media".toList, .document "<a><p>".toList,
        .inline "p\x7bx\x7d i\x7by\x7d".toList]
    let second : List Step :=
      [.sheet "a.css" "a\x7bx\x7d .b\x7by\x7d @media".toList,
        .inline "p\x7bx\x7d i\x7by\x7d".toList, .document "<p>".toList]
    ((start { verbose := true }).run first).pruneAndPrint =
      ((start { verbose := true, whitelist := ["a", ".b", "a"] }).run second).pruneAndPrint := by
  intro first second
  have hfirst : ((start { verbose := true }).run first).live =
      ⟨⟨["*".toList, "p".toList, ".b".toList, "a".toList]⟩, []⟩ := by
    decide +kernel
  have hsecond : ((start { verbose := true, whitelist := ["a", ".b", "a"] }).run second).live =
      ⟨⟨["*".toList, "p".toList]⟩, ["a".toList, ".b".toList, "a".toList]⟩ := by
    decide +kernel
  have hsame (selector : Text) : selector ∈ ((start { verbose := true }).run first).live ↔
      selector ∈ ((start { verbose := true, whitelist := ["a", ".b", "a"] }).run second).live := by
    rw [hfirst, hsecond, LiveSet.mem_iff, LiveSet.mem_iff]
    simp only [List.mem_cons, List.not_mem_nil, or_false]
    tauto
  have hdocuments : ∀ step ∈ first, step.isPrune = false := by decide
  have hothers : ∀ step ∈ second, step.isPrune = false := by decide
  exact pruneAndPrint_eq_of_same_live { verbose := true } ["a", ".b", "a"] hdocuments hothers
    rfl hsame

end Session

end CssPrune
