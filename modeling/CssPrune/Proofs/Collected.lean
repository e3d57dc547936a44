import CssPrune.Proofs.Insertions

/-!
# What the stylesheets collect

The texts of a run say rules one after the other, each for the name of its text. As long as no rules
are removed, the stylesheets are these rules grouped by name, by scope and by selector list, each in
the order of first occurrence, with all declarations in the order in which they came
(`Session.collects_arrivals`). A step adds a text behind those of its name, so the texts of a run
are enough to tell what it holds, and each level of a stylesheet is the grouping of the one below.
-/

namespace CssPrune

/-! ## Arrivals -/

/-- A rule as it comes in: what it says, and the name of the text that says it. -/
structure Arrival extends Content where
  name : String
  deriving DecidableEq, Repr

/-- What tells the rule apart that takes the declarations. -/
def Arrival.key (arrival : Arrival) : String × Scope × Text :=
  (arrival.name, arrival.scope, arrival.selector)

/-- The arrivals for a rule are those of its name, in its scope, for its selector list. -/
lemma filter_key (arrivals : List Arrival) (name : String) (scope : Scope) (selector : Text) :
    arrivals.filter (·.key == (name, scope, selector)) =
      ((arrivals.filter (·.name == name)).filter (·.scope == scope)).filter
        (·.selector == selector) := by
  rw [List.filter_filter, List.filter_filter]
  apply List.filter_congr
  intro arrival _
  show (arrival.name == name && (arrival.scope == scope && arrival.selector == selector)) = _
  rw [Bool.and_comm, Bool.and_comm (arrival.scope == scope)]

/-- The rules that a text says, in order. -/
def arrivalsOf (named : String × Text) : List Arrival :=
  (Reading.ofSource ⟨named.1, named.2⟩).entries.map fun entry => ⟨entry.content, named.1⟩

/-- What a text says comes in under its name. -/
lemma name_of_mem_arrivalsOf {named : String × Text} {arrival : Arrival}
    (h : arrival ∈ arrivalsOf named) : arrival.name = named.1 := by
  obtain ⟨entry, -, rfl⟩ := List.mem_map.1 h
  rfl

/-- The arrivals of a name are what its texts say. -/
lemma toContent_arrivals_of_name (texts : List (String × Text)) (name : String) :
    ((texts.flatMap arrivalsOf).filter (·.name == name)).map Arrival.toContent =
      (entriesOf name texts).map Entry.content := by
  have hselect : ∀ named ∈ texts, ∀ arrival ∈ arrivalsOf named,
      (arrival.name == name) = (named.1 == name) := by
    intro named _ arrival harrival
    rw [name_of_mem_arrivalsOf harrival]
  rw [filter_flatMap_eq hselect, entriesOf, List.map_flatMap, List.map_flatMap]
  apply List.flatMap_congr
  intro named _
  rw [arrivalsOf, List.map_map]
  rfl

/-! ## Stylesheets -/

namespace Stylesheet

variable {sheet : Stylesheet} {contents : List Content}

/-- The scopes of a stylesheet that groups some rules. -/
lemma keys_scopes_of_listing (h : sheet.listing = gatherContents contents) :
    sheet.scopes.keys = (contents.map (·.scope)).eraseDups := by
  have hkeys := congrArg (List.map (·.1)) h
  simpa [listing, gatherContents, gather, OrderedMap.keys, Function.comp_def] using hkeys

/-- A scope groups the rules that are said there. -/
lemma listing_of_mem_scopes (h : sheet.listing = gatherContents contents) {scope : Scope}
    {rules : RuleSet} (hmem : (scope, rules) ∈ sheet.scopes.entries) :
    RuleSet.listing rules = gather ((contents.filter (·.scope == scope)).map
      fun content => (content.selector, content.declarations)) := by
  have hgroup : (scope, RuleSet.listing rules) ∈ gatherContents contents := by
    rw [← h]
    exact List.mem_map_of_mem (f := fun group => (group.1, RuleSet.listing group.2)) hmem
  obtain ⟨⟨_, items⟩, hitems, heq⟩ := List.mem_map.1 hgroup
  obtain ⟨rfl, hlisting⟩ := Prod.mk.inj heq
  rw [← hlisting, (mem_gather_iff.1 hitems).2, List.filter_map, List.map_map]
  rfl

/-- The selector lists of a scope are those that are said there. -/
lemma keys_of_mem_scopes (h : sheet.listing = gatherContents contents) {scope : Scope}
    {rules : RuleSet} (hmem : (scope, rules) ∈ sheet.scopes.entries) :
    rules.keys = ((contents.filter (·.scope == scope)).map (·.selector)).eraseDups := by
  have hkeys := congrArg (List.map (·.1)) (listing_of_mem_scopes h hmem)
  simpa [RuleSet.listing, gather, OrderedMap.keys, Function.comp_def] using hkeys

/-- A rule has the declarations that are said for its selector list. -/
lemma declarations_of_mem_scopes (h : sheet.listing = gatherContents contents) {scope : Scope}
    {rules : RuleSet} (hmem : (scope, rules) ∈ sheet.scopes.entries) {selector : Text}
    {rule : Rule} (hrule : (selector, rule) ∈ rules.entries) :
    rule.declarations = ((contents.filter (·.scope == scope)).filter (·.selector == selector)).map
      (·.declarations) := by
  have hlisted : (selector, rule.declarations) ∈ RuleSet.listing rules :=
    List.mem_map_of_mem (f := fun rule => (rule.1, rule.2.declarations)) hrule
  rw [listing_of_mem_scopes h hmem] at hlisted
  rw [(mem_gather_iff.1 hlisted).2, List.filter_map, List.map_map]
  rfl

/-- A rule that is said is there. -/
lemma exists_mem_scopes (h : sheet.listing = gatherContents contents) {content : Content}
    (hmem : content ∈ contents) :
    ∃ rules, (content.scope, rules) ∈ sheet.scopes.entries ∧
      ∃ rule, (content.selector, rule) ∈ rules.entries := by
  have hscope : content.scope ∈ sheet.scopes.keys := by
    rw [keys_scopes_of_listing h, List.mem_eraseDups]
    exact List.mem_map_of_mem hmem
  obtain ⟨⟨scope, rules⟩, hrules, rfl⟩ := List.mem_map.1 hscope
  have hselector : content.selector ∈ rules.keys := by
    rw [keys_of_mem_scopes h hrules, List.mem_eraseDups]
    exact List.mem_map_of_mem (List.mem_filter.2 ⟨hmem, beq_self_eq_true _⟩)
  obtain ⟨⟨selector, rule⟩, hrule, rfl⟩ := List.mem_map.1 hselector
  exact ⟨rules, hrules, rule, hrule⟩

end Stylesheet

/-! ## Runs -/

/-- Stylesheets hold rules that came in, and nothing else: names, scopes and selector lists in the
order in which they came first, names also if nothing came for them, and declarations in the order
in which they came. -/
structure Sheets.Collects (sheets : Sheets) (names : List String) (arrivals : List Arrival) :
    Prop where
  names : sheets.byName.keys = names.eraseDups
  scopes : ∀ name sheet, (name, sheet) ∈ sheets.byName.entries →
    sheet.scopes.keys = ((arrivals.filter (·.name == name)).map (·.scope)).eraseDups
  selectors : ∀ name sheet, (name, sheet) ∈ sheets.byName.entries →
    ∀ scope rules, (scope, rules) ∈ sheet.scopes.entries →
      rules.keys = (((arrivals.filter (·.name == name)).filter (·.scope == scope)).map
        (·.selector)).eraseDups
  declarations : ∀ placed ∈ sheets.placed,
    placed.rule.declarations = (arrivals.filter (·.key == placed.key)).map (·.declarations)
  complete : ∀ arrival ∈ arrivals, ∃ placed ∈ sheets.placed, placed.key = arrival.key

namespace Session

/-- The rules that come in on the way, in order. -/
def arrivals (session : Session) (steps : List Step) : List Arrival :=
  (session.additions steps).flatMap arrivalsOf

/-- A step that removes no rules adds its text, if it has one, to those of its name. -/
lemma byName_step {session : Session} {step : Step} (h : step.isPrune = false) :
    (session.step step).sheets.byName =
      OrderedMap.updateAll (·.1) Stylesheet.extendSheet (session.addition? step).toList
        session.sheets.byName := by
  cases step with
  | document html => rfl
  | sheet name css => exact congrArg (·.byName) (sheets_addSheet session name css)
  | inline css =>
    have hsheets := sheets_addSheet { session with unnamed := session.unnamed + 1 }
      (inlineName session.unnamed) css
    exact congrArg (·.byName) hsheets
  | prune => cases h

/-- Without removals, a run adds its texts one after the other. -/
lemma byName_run {steps : List Step} (h : ∀ step ∈ steps, step.isPrune = false)
    (session : Session) :
    (session.run steps).sheets.byName =
      OrderedMap.updateAll (·.1) Stylesheet.extendSheet (session.additions steps)
        session.sheets.byName := by
  induction steps generalizing session with
  | nil => rfl
  | cons step steps ih =>
    obtain ⟨hstep, hsteps⟩ := List.forall_mem_cons.1 h
    have hrest := ih hsteps (session.step step)
    rw [byName_step hstep] at hrest
    rw [additions, OrderedMap.updateAll, List.foldl_append]
    exact hrest

section Collected

variable {steps : List Step} (settings : Settings)

/-- Without removals, each name has what its texts say. -/
lemma entries_run (h : ∀ step ∈ steps, step.isPrune = false) :
    ((start settings).run steps).sheets.byName.entries =
      (((start settings).additions steps).map (·.1)).eraseDups.map fun name =>
        (name, Stylesheet.empty.insertAll (entriesOf name ((start settings).additions steps))) := by
  have hadded : ((start settings).run steps).sheets.byName =
      ((start settings).addNamed ((start settings).additions steps)).sheets.byName := by
    rw [byName_run h, byName_addNamed]
  rw [hadded]
  exact entries_addNamed rfl _

/-- Without removals, a stylesheet groups the arrivals of its name. -/
lemma listing_of_mem_run (h : ∀ step ∈ steps, step.isPrune = false) {name : String}
    {sheet : Stylesheet}
    (hmem : (name, sheet) ∈ ((start settings).run steps).sheets.byName.entries) :
    sheet.listing = gatherContents
      ((((start settings).arrivals steps).filter (·.name == name)).map Arrival.toContent) := by
  rw [entries_run settings h] at hmem
  obtain ⟨_, -, heq⟩ := List.mem_map.1 hmem
  obtain ⟨rfl, rfl⟩ := Prod.mk.inj heq
  rw [arrivals, toContent_arrivals_of_name, Stylesheet.listing_insertAll]

/-- As long as no rules are removed, the stylesheets of a run are the rules that came in: none is
lost, none is doubled and none stands in another place. -/
theorem collects_arrivals (h : ∀ step ∈ steps, step.isPrune = false) :
    ((start settings).run steps).sheets.Collects
      (((start settings).additions steps).map (·.1)) ((start settings).arrivals steps) where
  names := by
    rw [OrderedMap.keys, entries_run settings h, List.map_map]
    exact List.map_id _
  scopes := by
    intro name sheet hsheet
    rw [Stylesheet.keys_scopes_of_listing (listing_of_mem_run settings h hsheet), List.map_map]
    rfl
  selectors := by
    intro name sheet hsheet scope rules hrules
    rw [Stylesheet.keys_of_mem_scopes (listing_of_mem_run settings h hsheet) hrules,
      List.filter_map, List.map_map]
    rfl
  declarations := by
    rintro ⟨name, scope, selector, rule⟩ hplaced
    obtain ⟨sheet, hsheet, rules, hrules, hrule⟩ := Sheets.mem_placed_iff.1 hplaced
    have hlisting := listing_of_mem_run settings h hsheet
    rw [Stylesheet.declarations_of_mem_scopes hlisting hrules hrule, List.filter_map,
      List.filter_map, List.map_map, PlacedRule.key, filter_key]
    rfl
  complete := by
    intro arrival harrival
    obtain ⟨named, hnamed, hfrom⟩ := List.mem_flatMap.1 harrival
    have hname : arrival.name ∈ ((start settings).run steps).sheets.byName.keys := by
      rw [OrderedMap.keys, entries_run settings h, List.map_map, name_of_mem_arrivalsOf hfrom]
      exact List.mem_map.2 ⟨named.1, List.mem_eraseDups.2 (List.mem_map_of_mem hnamed), rfl⟩
    obtain ⟨⟨name, sheet⟩, hsheet, rfl⟩ := List.mem_map.1 hname
    have hsame : arrival ∈ ((start settings).arrivals steps).filter (·.name == arrival.name) :=
      List.mem_filter.2 ⟨harrival, beq_self_eq_true _⟩
    obtain ⟨rules, hrules, rule, hrule⟩ := Stylesheet.exists_mem_scopes
      (listing_of_mem_run settings h hsheet) (List.mem_map_of_mem hsame)
    exact ⟨_, Sheets.mem_placed_iff.2 ⟨sheet, hsheet, rules, hrules, hrule⟩, rfl⟩

/-- A name that comes back, one that a text without a name takes as well, one without rules, and a
scope and a selector list that come back behind others. -/
theorem collects_arrivals_interleaved :
    let steps : List Step :=
      [.sheet "a.css" "p\x7bx\x7d@media m\x7bq\x7by\x7d\x7dp\x7bz\x7d".toList,
      .sheet "none.css" [], .inline "p\x7bu\x7d".toList, .document "<p>".toList,
      .sheet "a.css" "@media m\x7br\x7bv\x7dq\x7bw\x7d\x7d".toList,
      .sheet "inline_0" "p\x7bt\x7d".toList]
    let sheets := ((start {}).run steps).sheets
    (∀ step ∈ steps, step.isPrune = false) ∧
      sheets.Collects (((start {}).additions steps).map (·.1)) ((start {}).arrivals steps) ∧
      sheets.byName.keys = ["a.css", "none.css", "inline_0"] ∧
      sheets.placed.map (fun placed => (placed.selector, placed.rule.declarations)) =
        [("p".toList, ["x".toList, "z".toList]), ("q".toList, ["y".toList, "w".toList]),
          ("r".toList, ["v".toList]), ("p".toList, ["u".toList, "t".toList])] := by
  intro steps sheets
  have hsteps : ∀ step ∈ steps, step.isPrune = false := by decide
  exact ⟨hsteps, collects_arrivals {} hsteps, by decide +kernel, by decide +kernel⟩

end Collected

end Session

end CssPrune
