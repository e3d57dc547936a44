import CssPrune.Proofs.Checked.Store

/-!
# The checked removal of rules

The rules of each scope of each stylesheet are gone through in order. A rule that is not used is
removed, and in a run that reports removals its span is looked up. What is left and what is reported
are those of the run (`pruneStore_is`).
-/

namespace CssPrune.Checked

section Pruning

variable {Map κ β : Type} (maps : SourceMap Map) (map : Map) (quiet : Bool) (live : LiveSet)

/-- Whether a rule is kept, and the report about it if it is not. -/
def keepRule (selector : Text) (rule : StoredRule) : Except Fault (Bool × List Report) := do
  let kept ← isLive live selector
  if !kept && !quiet then do
    let location ← maps.lookUp map rule.span
    return (kept, [⟨.removed selector, location⟩])
  else return (kept, [])

/-- Keeps the rules that are used. -/
def keepRules : List (Text × StoredRule) → Except Fault (List (Text × StoredRule) × List Report)
  | [] => return ([], [])
  | (selector, rule) :: rest => do
    let (kept, reports) ← keepRule maps map quiet live selector rule
    let (others, later) ← keepRules rest
    return (if kept then (selector, rule) :: others else others, reports ++ later)

/-- Changes one value after the other. -/
def changeEach (change : β → Except Fault (β × List Report)) :
    List (κ × β) → Except Fault (List (κ × β) × List Report)
  | [] => return ([], [])
  | (key, value) :: rest => do
    let (value, reports) ← change value
    let (others, later) ← changeEach change rest
    return ((key, value) :: others, reports ++ later)

/-- Keeps the rules of a scope that are used. -/
def pruneRules (rules : OrderedMap Text StoredRule) :
    Except Fault (OrderedMap Text StoredRule × List Report) := do
  let (entries, reports) ← keepRules maps map quiet live rules.entries
  return (⟨entries⟩, reports)

/-- Keeps the rules of a stylesheet that are used. -/
def pruneSheet (sheet : StoredSheet) : Except Fault (StoredSheet × List Report) := do
  let (entries, reports) ← changeEach (pruneRules maps map quiet live) sheet.entries
  return (⟨entries⟩, reports)

/-- Keeps the rules of a run that are used. -/
def pruneStore (store : Store) : Except Fault (Store × List Report) := do
  let (entries, reports) ← changeEach (pruneSheet maps map quiet live) store.entries
  return (⟨entries⟩, reports)

end Pruning

/-! ## Removals -/

/-- The events about the rules that are not used. -/
def removalsOf (live : LiveSet) (rules : List (Text × Rule)) : List Event :=
  (rules.filter fun (selector, _) => !live.isLive selector).map
    fun (selector, rule) => ⟨.removed selector, rule.span⟩

/-- The first rule has an event if it is not used. -/
lemma removalsOf_cons (live : LiveSet) (selector : Text) (rule : Rule)
    (rules : List (Text × Rule)) :
    removalsOf live ((selector, rule) :: rules) =
      (if live.isLive selector then [] else [⟨.removed selector, rule.span⟩])
        ++ removalsOf live rules := by
  cases h : live.isLive selector <;> simp [removalsOf, h]

/-- The events of many rule lists stand in the order of the lists. -/
lemma removalsOf_flatMap {α : Type} (live : LiveSet) (rules : α → List (Text × Rule))
    (items : List α) :
    removalsOf live (items.flatMap rules) = items.flatMap fun item =>
      removalsOf live (rules item) := by
  rw [removalsOf, List.filter_flatMap, List.map_flatMap]
  rfl

section Pruning

variable {Map κ β γ : Type} {maps : SourceMap Map} {map : Map} {quiet : Bool} {live : LiveSet}

/-- A rule is kept if it is used, and reported if it is not. -/
lemma keepRule_is (hmaps : maps.Lawful) {stored : StoredRule} {rule : Rule}
    (h : stored.Is (maps.files map) rule) (selector : Text) :
    Succeeds (keepRule maps map quiet live selector stored) fun result =>
      result.1 = live.isLive selector ∧
      Reported quiet result.2
        (if live.isLive selector then [] else [⟨.removed selector, rule.span⟩]) := by
  obtain ⟨-, file, hfile, hspan⟩ := h
  obtain ⟨location, hlook, hlocation⟩ := hspan.lookUp hmaps hfile
  rw [keepRule, isLive_eq, ok_bind]
  cases hlive : live.isLive selector with
  | true => exact succeeds_ok ⟨rfl, reported_nil quiet⟩
  | false =>
    cases quiet with
    | true => exact succeeds_ok ⟨rfl, .nil⟩
    | false =>
      rw [if_pos (by decide), hlook]
      exact succeeds_ok ⟨rfl, .cons ⟨rfl, hlocation⟩ .nil⟩

/-- The rules of a scope are kept and reported as their selector lists say. -/
lemma keepRules_is (hmaps : maps.Lawful) {entries : List (Text × StoredRule)}
    {rules : List (Text × Rule)}
    (h : List.Forall₂ (fun entry rule => entry.1 = rule.1 ∧ entry.2.Is (maps.files map) rule.2)
      entries rules) :
    Succeeds (keepRules maps map quiet live entries) fun result =>
      List.Forall₂ (fun entry rule => entry.1 = rule.1 ∧ entry.2.Is (maps.files map) rule.2)
        result.1 (rules.filter fun (selector, _) => live.isLive selector) ∧
      Reported quiet result.2 (removalsOf live rules) := by
  induction h with
  | nil => exact succeeds_ok ⟨.nil, reported_nil quiet⟩
  | @cons entry rule entries rules hhead _ ih =>
    obtain ⟨selector, stored⟩ := entry
    obtain ⟨selector', rule⟩ := rule
    obtain ⟨hselector, hrule⟩ := hhead
    change selector = selector' at hselector
    subst hselector
    refine (keepRule_is hmaps hrule selector).bind fun ⟨kept, reports⟩ ⟨hkept, hreports⟩ => ?_
    refine ih.bind fun ⟨others, later⟩ ⟨hothers, hlater⟩ => ?_
    change kept = live.isLive selector at hkept
    subst hkept
    refine succeeds_ok ⟨?_, ?_⟩
    · cases hlive : live.isLive selector with
      | true => simpa [hlive] using ⟨hrule, hothers⟩
      | false => simpa [hlive] using hothers
    · rw [removalsOf_cons]
      exact hreports.append hlater

/-- A change of each value changes a related map and reports value by value. -/
lemma changeEach_is {change : β → Except Fault (β × List Report)} {r s : β → γ → Prop}
    {next : γ → γ} {events : γ → List Event}
    (hchange : ∀ value other, r value other → Succeeds (change value) fun result =>
      s result.1 (next other) ∧ Reported quiet result.2 (events other))
    {first : OrderedMap κ β} {second : OrderedMap κ γ} (h : first.Related r second) :
    Succeeds (changeEach change first.entries) fun result =>
      OrderedMap.Related s ⟨result.1⟩ (second.mapValues next) ∧
      Reported quiet result.2 (second.values.flatMap events) := by
  obtain ⟨entries⟩ := first
  obtain ⟨others⟩ := second
  change List.Forall₂ _ entries others at h
  induction h with
  | nil => exact succeeds_ok ⟨.nil, reported_nil quiet⟩
  | @cons entry other entries others hhead _ ih =>
    refine (hchange _ _ hhead.2).bind fun ⟨value, reports⟩ ⟨hvalue, hreports⟩ => ?_
    refine ih.bind fun ⟨rest, later⟩ ⟨hrest, hlater⟩ => ?_
    exact succeeds_ok ⟨.cons ⟨hhead.1, hvalue⟩ hrest, hreports.append hlater⟩

/-- The rules of a scope are pruned as the model prunes them. -/
lemma pruneRules_is (hmaps : maps.Lawful) {stored : OrderedMap Text StoredRule} {rules : RuleSet}
    (h : stored.Related (StoredRule.Is (maps.files map)) rules) :
    Succeeds (pruneRules maps map quiet live stored) fun result =>
      result.1.Related (StoredRule.Is (maps.files map)) (rules.filterKeys live.isLive) ∧
      Reported quiet result.2 (removalsOf live rules.entries) :=
  (keepRules_is hmaps h).bind fun ⟨_, _⟩ ⟨hentries, hreports⟩ =>
    succeeds_ok ⟨hentries, hreports⟩

/-- A stylesheet is pruned as the model prunes it. -/
lemma pruneSheet_is (hmaps : maps.Lawful) {stored : StoredSheet} {sheet : Stylesheet}
    (h : stored.Is (maps.files map) sheet) :
    Succeeds (pruneSheet maps map quiet live stored) fun result =>
      StoredSheet.Is (maps.files map) result.1 (sheet.filter live.isLive) ∧
      Reported quiet result.2 (removalsOf live sheet.rules) := by
  rw [pruneSheet, Stylesheet.rules, removalsOf_flatMap]
  refine (changeEach_is (fun _ _ hrules => pruneRules_is hmaps hrules) h).bind
    fun ⟨entries, reports⟩ ⟨hentries, hreports⟩ => ?_
  exact succeeds_ok ⟨hentries, hreports⟩

/-- The rules that are not used are removed without a fault. -/
lemma pruneStore_is (hmaps : maps.Lawful) {store : Store} {sheets : Sheets}
    (h : store.Is (maps.files map) sheets) :
    Succeeds (pruneStore maps map quiet live store) fun result =>
      Store.Is (maps.files map) result.1 (sheets.filter live.isLive) ∧
      Reported quiet result.2 (removalsOf live sheets.rules) := by
  rw [pruneStore, Sheets.rules, removalsOf_flatMap]
  refine (changeEach_is (fun _ _ hsheet => pruneSheet_is hmaps hsheet) h).bind
    fun ⟨entries, reports⟩ ⟨hentries, hreports⟩ => ?_
  exact succeeds_ok ⟨hentries, hreports⟩

end Pruning

end CssPrune.Checked
