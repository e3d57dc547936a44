import CssPrune.Proofs.Runs
import CssPrune.Prune

/-!
# What a run keeps of its texts

A run that adds documents and then named stylesheets holds, under each name, what the texts of that
name say one after the other (`exists_of_mem_result_prune`). So a scope of an output has rules
exactly if some text of its name says a live rule there (`exists_kept_iff`).
-/

namespace CssPrune

open Css

/-- The rules that a source says. -/
def Css.textContents (text : Text) : List Content :=
  sheetContents (withoutComments (unifyLineEnds text))

/-- The entries of a source say what its text says. -/
lemma Reading.contents_eq_textContents (source : Source) :
    (Reading.ofSource source).entries.map Entry.content = textContents source.text :=
  Reading.contents_ofSource source

/-! ## Stylesheets of several texts -/

namespace Stylesheet

/-- Entries can be inserted in two runs. -/
lemma insertAll_append (sheet : Stylesheet) (first second : List Entry) :
    sheet.insertAll (first ++ second) = (sheet.insertAll first).insertAll second :=
  List.foldl_append

/-- Adds the rules of a text to those that a name has already. -/
def extendSheet (named : String × Text) (sheet? : Option Stylesheet) : Stylesheet :=
  (sheet?.getD .empty).insertAll (Reading.ofSource ⟨named.1, named.2⟩).entries

/-- Texts of one name extend its stylesheet by their entries, in order. -/
lemma foldl_extendSheet (css : List (String × Text)) (sheet? : Option Stylesheet) :
    css.foldl (fun sheet? named => some (extendSheet named sheet?)) sheet? =
      if css.isEmpty then sheet?
      else some ((sheet?.getD .empty).insertAll
        (css.flatMap fun named => (Reading.ofSource ⟨named.1, named.2⟩).entries)) := by
  induction css generalizing sheet? with
  | nil => rfl
  | cons named css ih =>
    rw [List.foldl_cons, ih]
    cases css with
    | nil => simp [extendSheet]
    | cons second css => simp [extendSheet, insertAll_append]

end Stylesheet

/-- The entries of the texts of a name, in order. -/
def entriesOf (name : String) (css : List (String × Text)) : List Entry :=
  (css.filter (·.1 == name)).flatMap fun named => (Reading.ofSource ⟨named.1, named.2⟩).entries

/-- The rules that the texts of a name say. -/
def contentsOf (name : String) (css : List (String × Text)) : List Content :=
  (css.filter (·.1 == name)).flatMap fun named => textContents named.2

/-- The entries of a name say the contents of its texts. -/
lemma content_entriesOf (name : String) (css : List (String × Text)) :
    (entriesOf name css).map Entry.content = contentsOf name css := by
  rw [entriesOf, contentsOf, List.map_flatMap]
  apply List.flatMap_congr
  intro named _
  exact Reading.contents_eq_textContents ⟨named.1, named.2⟩

/-- A text of a name says each of its contents. -/
lemma mem_contentsOf {name : String} {css : List (String × Text)} {content : Content} :
    content ∈ contentsOf name css ↔ ∃ text, (name, text) ∈ css ∧ content ∈ textContents text := by
  rw [contentsOf, List.mem_flatMap]
  constructor
  · rintro ⟨⟨other, text⟩, hnamed, hcontent⟩
    obtain ⟨hmem, heq⟩ := List.mem_filter.1 hnamed
    obtain rfl : other = name := by simpa using heq
    exact ⟨text, hmem, hcontent⟩
  · rintro ⟨text, hmem, hcontent⟩
    exact ⟨(name, text), List.mem_filter.2 ⟨hmem, beq_self_eq_true name⟩, hcontent⟩

namespace Session

/-- Adds named stylesheets one after the other. -/
def addNamed (session : Session) (css : List (String × Text)) : Session :=
  css.foldl (fun session named => session.addSheet named.1 named.2) session

/-- Texts update the stylesheets of their names one after the other. -/
lemma byName_addNamed (session : Session) (css : List (String × Text)) :
    (session.addNamed css).sheets.byName =
      OrderedMap.updateAll (·.1) Stylesheet.extendSheet css session.sheets.byName := by
  induction css generalizing session with
  | nil => rfl
  | cons named css ih =>
    have hrest := ih (session.addSheet named.1 named.2)
    rw [sheets_addSheet] at hrest
    exact hrest

/-- What no added text changes, a list of them leaves as it is. -/
lemma apply_addNamed {β : Type} (f : Session → β)
    (h : ∀ session name css, f (addSheet session name css) = f session) (session : Session)
    (css : List (String × Text)) : f (session.addNamed css) = f session := by
  have hstep (session : Session) (named : String × Text) :
      f (session.addSheet named.1 named.2) = f session := h session named.1 named.2
  exact apply_foldl f hstep session css

/-- Added texts leave the live set as it is. -/
lemma live_addNamed (session : Session) (css : List (String × Text)) :
    (session.addNamed css).live = session.live :=
  apply_addNamed live live_addSheet session css

/-- Added texts leave the settings as they are. -/
lemma settings_addNamed (session : Session) (css : List (String × Text)) :
    (session.addNamed css).settings = session.settings :=
  apply_addNamed settings settings_addSheet session css

/-- Without stylesheets before, a name has what its texts say. -/
lemma get?_addNamed {session : Session} (hempty : session.sheets = .empty) (name : String)
    (css : List (String × Text)) :
    (session.addNamed css).sheets.byName.get? name =
      if name ∈ css.map (·.1) then some (Stylesheet.empty.insertAll (entriesOf name css))
      else none := by
  have hnone : css.filter (·.1 == name) = [] ↔ name ∉ css.map (·.1) := by
    rw [List.filter_eq_nil_iff]
    simp only [beq_iff_eq, List.mem_map, not_exists, not_and]
  rw [byName_addNamed, hempty]
  show (OrderedMap.updateAll _ _ css OrderedMap.empty).get? name = _
  rw [OrderedMap.get?_updateAll, Stylesheet.foldl_extendSheet, entriesOf]
  by_cases hmem : name ∈ css.map (·.1)
  · have hne : (css.filter (·.1 == name)).isEmpty = false := by
      rw [Bool.eq_false_iff, Ne, List.isEmpty_iff, hnone]
      exact not_not_intro hmem
    rw [if_pos hmem, hne]
    rfl
  · rw [if_neg hmem, hnone.2 hmem]
    rfl

/-- Without stylesheets before, the names come in the order of their first occurrence. -/
lemma entries_addNamed {session : Session} (hempty : session.sheets = .empty)
    (css : List (String × Text)) :
    (session.addNamed css).sheets.byName.entries =
      (css.map (·.1)).eraseDups.map fun name =>
        (name, Stylesheet.empty.insertAll (entriesOf name css)) := by
  have hkeys : (session.addNamed css).sheets.byName.keys = (css.map (·.1)).eraseDups := by
    rw [byName_addNamed, hempty]
    exact OrderedMap.keys_updateAll _ _ css
  have hnodup : (session.addNamed css).sheets.byName.keys.Nodup := by
    rw [byName_addNamed, hempty]
    exact OrderedMap.nodup_keys_updateAll _ _ _ OrderedMap.nodup_keys_empty
  have hentries := OrderedMap.map_entries hnodup id
    (fun name => Stylesheet.empty.insertAll (entriesOf name css)) fun name hname => by
      rw [hkeys, List.mem_eraseDups] at hname
      rw [get?_addNamed hempty, if_pos hname]
      rfl
  rw [hkeys] at hentries
  exact (List.map_id _).symm.trans hentries

end Session

/-! ## Outputs -/

/-- What counts as used once some documents are added. -/
def liveSelectors (html : List Text) (settings : Settings) : LiveSet :=
  (html.foldl Session.addDocument (.start settings)).live

/-- What a run has gathered once it has read documents and named stylesheets. -/
def Session.ofTexts (html : List Text) (css : List (String × Text)) (settings : Settings) :
    Session :=
  (html.foldl addDocument (.start settings)).addNamed css

/-- The stylesheets that are left at the end of a run. -/
def remaining (html : List Text) (css : List (String × Text)) (settings : Settings) : Sheets :=
  (Session.ofTexts html css settings).prune.sheets

/-- The stylesheet that is left of the texts of a name. -/
def keptOf (live : LiveSet) (name : String) (css : List (String × Text)) : Stylesheet :=
  (Stylesheet.empty.insertAll (entriesOf name css)).filter live.isLive

/-- What is kept of a stylesheet is well formed. -/
lemma wellFormed_keptOf (live : LiveSet) (name : String) (css : List (String × Text)) :
    (keptOf live name css).WellFormed := by
  apply Stylesheet.WellFormed.filter
  apply Stylesheet.wellFormed_empty.insertAll
  intro entry hentry
  obtain ⟨named, -, hentry⟩ := List.mem_flatMap.1 hentry
  exact Reading.wellFormed_ofSource _ entry hentry

namespace Session

variable (html : List Text) (css : List (String × Text)) (settings : Settings)

/-- A run on texts holds a stylesheet for each name, with the entries of its texts. -/
lemma entries_ofTexts :
    (ofTexts html css settings).sheets.byName.entries =
      (css.map (·.1)).eraseDups.map fun name =>
        (name, Stylesheet.empty.insertAll (entriesOf name css)) :=
  entries_addNamed (foldl_addDocument _ html).1 css

/-- A run on texts uses what its documents and its whitelist make live. -/
lemma live_ofTexts : (ofTexts html css settings).live = liveSelectors html settings :=
  live_addNamed _ css

/-- A run on texts keeps its settings. -/
lemma settings_ofTexts : (ofTexts html css settings).settings = settings :=
  (settings_addNamed _ css).trans (foldl_addDocument _ html).2

end Session

section Outputs

variable (html : List Text) (css : List (String × Text)) (settings : Settings)

/-- Each name has what is left of its texts. -/
lemma entries_remaining :
    (remaining html css settings).byName.entries =
      (css.map (·.1)).eraseDups.map fun name =>
        (name, keptOf (liveSelectors html settings) name css) := by
  rw [remaining, Session.sheets_prune, Session.live_ofTexts, Sheets.filter, OrderedMap.mapValues,
    Session.entries_ofTexts, List.map_map]
  rfl

/-- The outputs of a run are the stylesheets that are left. -/
lemma result_prune_eq_outputs :
    (prune html css settings).result = (remaining html css settings).outputs settings := by
  show (Session.ofTexts html css settings).prune.outputs = _
  rw [Session.outputs, Session.settings_prune, Session.settings_ofTexts, remaining]

/-- There is an output for each name, in the order of their first occurrence. -/
lemma result_prune_eq :
    (prune html css settings).result =
      (css.map (·.1)).eraseDups.map fun name =>
        .ofSheet settings name (keptOf (liveSelectors html settings) name css) := by
  rw [result_prune_eq_outputs, Sheets.outputs, entries_remaining, List.map_map]
  rfl

end Outputs

/-- An output is what is left of the texts of its name. -/
lemma exists_of_mem_result_prune {html : List Text} {css : List (String × Text)}
    {settings : Settings} {output : Output} (h : output ∈ (prune html css settings).result) :
    ∃ name ∈ css.map (·.1),
      output = .ofSheet settings name (keptOf (liveSelectors html settings) name css) := by
  rw [result_prune_eq] at h
  obtain ⟨name, hname, rfl⟩ := List.mem_map.1 h
  exact ⟨name, List.mem_eraseDups.1 hname, rfl⟩

/-! ## Rules -/

/-- The rule of a selector list in a scope of a stylesheet. -/
def Sheets.rule? (sheets : Sheets) (name : String) (scope : Scope) (selector : Text) :
    Option Rule := do
  let sheet ← sheets.sheet? name
  let rules ← sheet.ruleSet? scope
  rules.get? selector

/-- A removal leaves the rules of the selector lists that it keeps. -/
lemma Sheets.rule?_filter (sheets : Sheets) (keep : Text → Bool) (name : String) (scope : Scope)
    (selector : Text) :
    (sheets.filter keep).rule? name scope selector =
      if keep selector then sheets.rule? name scope selector else none := by
  rw [rule?, rule?, sheet?, sheet?, filter, OrderedMap.get?_mapValues]
  cases sheets.byName.get? name with
  | none => exact (ite_self _).symm
  | some sheet =>
    show ((sheet.filter keep).ruleSet? scope).bind (·.get? selector) =
      if keep selector then (sheet.ruleSet? scope).bind (·.get? selector) else none
    rw [Stylesheet.ruleSet?, Stylesheet.ruleSet?, Stylesheet.filter, OrderedMap.get?_mapValues]
    cases sheet.scopes.get? scope with
    | none => exact (ite_self _).symm
    | some rules => exact OrderedMap.get?_filterKeys keep selector rules

/-- A rule is left exactly if its selector list is live. -/
lemma rule?_remaining (html : List Text) (css : List (String × Text)) (settings : Settings)
    (name : String) (scope : Scope) (selector : Text) :
    (remaining html css settings).rule? name scope selector =
      if (liveSelectors html settings).isLive selector then
        (Session.ofTexts html css settings).sheets.rule? name scope selector
      else none := by
  rw [remaining, Session.sheets_prune, Session.live_ofTexts, Sheets.rule?_filter]

/-! ## Scopes with rules -/

/-- A group has a key of the items and the values that stand with it, in order. -/
lemma mem_gather_iff {κ γ : Type} [BEq κ] [LawfulBEq κ] {key : κ} {values : List γ}
    {items : List (κ × γ)} :
    (key, values) ∈ gather items ↔
      key ∈ items.map (·.1) ∧ values = (items.filter (·.1 == key)).map (·.2) := by
  rw [gather, List.mem_map]
  constructor
  · rintro ⟨other, hother, heq⟩
    obtain ⟨rfl, rfl⟩ := Prod.mk.inj heq
    exact ⟨List.mem_eraseDups.1 hother, rfl⟩
  · rintro ⟨hkey, rfl⟩
    exact ⟨key, List.mem_eraseDups.2 hkey, rfl⟩

/-- The keys of the groups are the keys of the items. -/
lemma mem_keys_gather_iff {κ γ : Type} [BEq κ] [LawfulBEq κ] {key : κ} {items : List (κ × γ)} :
    key ∈ (gather items).map (·.1) ↔ key ∈ items.map (·.1) := by
  rw [gather, List.map_map]
  simp [Function.comp_def]

/-- A scope has a kept rule exactly if one is said there. -/
lemma exists_kept_iff (keep : Text → Bool) (contents : List Content) (scope : Scope) :
    (∃ rules, (scope, rules) ∈ (gatherContents contents).map
        (fun group => (group.1, group.2.filter fun rule => keep rule.1)) ∧ rules ≠ []) ↔
      ∃ content ∈ contents, content.scope = scope ∧ keep content.selector = true := by
  constructor
  · rintro ⟨rules, hmem, hne⟩
    obtain ⟨⟨_, all⟩, hall, heq⟩ := List.mem_map.1 hmem
    obtain ⟨rfl, rfl⟩ := Prod.mk.inj heq
    obtain ⟨⟨_, items⟩, hitems, heq⟩ := List.mem_map.1 hall
    obtain ⟨rfl, rfl⟩ := Prod.mk.inj heq
    obtain ⟨-, rfl⟩ := mem_gather_iff.1 hitems
    obtain ⟨⟨selector, declarations⟩, hrule⟩ := List.exists_mem_of_ne_nil _ hne
    obtain ⟨hrule, hkeep⟩ := List.mem_filter.1 hrule
    have hselector := mem_keys_gather_iff.1 (List.mem_map_of_mem (f := (·.1)) hrule)
    simp only [List.map_map, List.mem_map, List.mem_filter] at hselector
    obtain ⟨_, ⟨⟨content, hcontent, rfl⟩, hscope⟩, rfl⟩ := hselector
    exact ⟨content, hcontent, by simpa using hscope, hkeep⟩
  · rintro ⟨content, hcontent, rfl, hkeep⟩
    have hscope : content.scope ∈
        (contents.map fun rule => (rule.scope, (rule.selector, rule.declarations))).map (·.1) := by
      rw [List.map_map]
      exact List.mem_map_of_mem hcontent
    refine ⟨_, List.mem_map.2 ⟨_, List.mem_map.2 ⟨_, mem_gather_iff.2 ⟨hscope, rfl⟩, rfl⟩, rfl⟩, ?_⟩
    -- the selector list of the rule is a key of its scope, and it is kept
    have hselector : content.selector ∈ (gather (((contents.map fun rule =>
        (rule.scope, (rule.selector, rule.declarations))).filter
          (·.1 == content.scope)).map (·.2))).map (·.1) := by
      rw [mem_keys_gather_iff]
      simp only [List.mem_map, List.mem_filter]
      exact ⟨_, ⟨_, ⟨⟨content, hcontent, rfl⟩, by simp⟩, rfl⟩, rfl⟩
    obtain ⟨rule, hrule, heq⟩ := List.mem_map.1 hselector
    apply List.ne_nil_of_mem
    exact List.mem_filter.2 ⟨hrule, by rw [heq]; exact hkeep⟩

end CssPrune
