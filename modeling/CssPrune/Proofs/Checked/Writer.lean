import CssPrune.Proofs.Checked.Store

/-!
# The checked writer

The output of a run, written line by line. The writer keeps the present indentation, which grows in
front of the lines inside of a block and shrinks behind them; it never shrinks below zero. What is
written are the outputs of the run (`storeOutputs_eq`).
-/

namespace CssPrune.Checked

open Css

/-- A text that is written, and the present indentation. -/
structure Writer where
  indentation : Nat := 0
  buffer : Text := []

namespace Writer

/-- Writes a text. -/
def push (writer : Writer) (text : Text) : Writer :=
  { writer with buffer := writer.buffer ++ text }

/-- Writes the blanks at the start of a line. -/
def pushIndent (writer : Writer) : Writer :=
  writer.push (indentText writer.indentation)

/-- Goes one level in. -/
def enter (writer : Writer) : Writer :=
  { writer with indentation := writer.indentation + indentWidth }

/-- Comes one level out. -/
def leave (writer : Writer) : Except Fault Writer := do
  let indentation ← minus writer.indentation indentWidth
  return { writer with indentation }

/-- Writes a rule. -/
def rule (writer : Writer) (selector : Text) (stored : StoredRule) : Except Fault Writer := do
  let inner := ((writer.pushIndent.push selector).push [' ', '{', '\n']).enter
  let outer ← ((inner.pushIndent.push (declarationsText stored.declarations)).push ['\n']).leave
  return outer.pushIndent.push ['}', '\n']

/-- Writes the rules of a scope. -/
def rules (writer : Writer) (stored : OrderedMap Text StoredRule) : Except Fault Writer :=
  stored.entries.foldlM (fun writer entry => writer.rule entry.1 entry.2) writer

/-- Writes a scope, unless it has no rules. -/
def scope (writer : Writer) (scope : Scope) (stored : OrderedMap Text StoredRule) :
    Except Fault Writer :=
  if stored.isEmpty then return writer
  else
    match scope with
    | .topLevel => writer.rules stored
    | .media _ => do
      let inner ← ((writer.push scope.text).push [' ', '{', '\n']).enter.rules stored
      let outer ← inner.leave
      return outer.push ['}', '\n', '\n']

end Writer

/-- The text of a stylesheet. -/
def storedText (stored : StoredSheet) : Except Fault Text := do
  let writer ← stored.entries.foldlM (fun writer entry => writer.scope entry.1 entry.2)
    ({} : Writer)
  return writer.buffer

/-- The output of a stylesheet. -/
def storedOutput (settings : Settings) (name : String) (stored : StoredSheet) :
    Except Fault Output := do
  let target ← outputName settings.suffix name
  let text ← storedText stored
  match settings.layout with
  | .expanded => return ⟨name, target, (settings.banner.getD "").toList ++ text⟩
  | .compressed => return ⟨name, target, settings.minifier text⟩

/-- The outputs of a run. -/
def storeOutputs (settings : Settings) (store : Store) : Except Fault (List Output) :=
  store.entries.mapM fun entry => storedOutput settings entry.1 entry.2

/-! ## What is written -/

section Writer

variable {files : List MapFile} {indentation : Nat} {buffer : Text}

/-- Leaving a block takes its indentation away. -/
lemma leave_eq : Writer.leave ⟨indentation + indentWidth, buffer⟩ = .ok ⟨indentation, buffer⟩ := by
  show (minus (indentation + indentWidth) indentWidth >>= _) = _
  rw [minus_add]
  rfl

/-- A stored rule is written as the rule that it stands for is printed. -/
lemma rule_eq {stored : StoredRule} {rule : Rule} (h : stored.Is files rule) (selector : Text)
    (buffer : Text) :
    Writer.rule ⟨indentation, buffer⟩ selector stored =
      .ok ⟨indentation, buffer ++ ruleText indentation selector rule⟩ := by
  show (Writer.leave ⟨indentation + indentWidth, _⟩ >>= _) = _
  rw [leave_eq, h.declarations]
  simp [Writer.push, Writer.pushIndent, Writer.enter, ruleText]

/-- A list is written item by item. -/
lemma foldlM_write {α β : Type} {r : α → β → Prop} {write : Writer → α → Except Fault Writer}
    {text : β → Text}
    (hwrite : ∀ a b buffer, r a b →
      write ⟨indentation, buffer⟩ a = .ok ⟨indentation, buffer ++ text b⟩)
    {as : List α} {bs : List β} (h : List.Forall₂ r as bs) (buffer : Text) :
    as.foldlM write ⟨indentation, buffer⟩ = .ok ⟨indentation, buffer ++ bs.flatMap text⟩ := by
  induction h generalizing buffer with
  | nil => rw [List.foldlM_nil, List.flatMap_nil, List.append_nil]; rfl
  | cons hab _ ih =>
    rw [List.foldlM_cons, hwrite _ _ _ hab, ok_bind, ih, List.flatMap_cons, List.append_assoc]

/-- Stored rules are written as the rules that they stand for are printed. -/
lemma rules_eq {stored : OrderedMap Text StoredRule} {ruleSet : RuleSet}
    (h : stored.Related (StoredRule.Is files) ruleSet) (buffer : Text) :
    Writer.rules ⟨indentation, buffer⟩ stored =
      .ok ⟨indentation, buffer ++ ruleSetText indentation ruleSet⟩ := by
  refine foldlM_write (fun entry other buffer ⟨hselector, hrule⟩ => ?_) h buffer
  rw [hselector]
  exact rule_eq hrule other.1 buffer

/-- A stored scope is written as the scope that it stands for is printed. -/
lemma scope_eq {stored : OrderedMap Text StoredRule} {ruleSet : RuleSet}
    (h : stored.Related (StoredRule.Is files) ruleSet) (scope : Scope) (buffer : Text) :
    Writer.scope ⟨0, buffer⟩ scope stored = .ok ⟨0, buffer ++ scopeText scope ruleSet⟩ := by
  have hempty : stored.isEmpty = ruleSet.isEmpty := by
    rw [OrderedMap.isEmpty, OrderedMap.isEmpty, Bool.eq_iff_iff, List.isEmpty_iff_length_eq_zero,
      List.isEmpty_iff_length_eq_zero, List.Forall₂.length_eq h]
  unfold Writer.scope scopeText
  rw [hempty]
  by_cases hnone : ruleSet.isEmpty = true
  · rw [if_pos hnone, if_pos hnone, List.append_nil]
    rfl
  · rw [if_neg hnone, if_neg hnone]
    cases scope with
    | topLevel => exact rules_eq h buffer
    | media query =>
      show (Writer.rules ⟨0 + indentWidth, _⟩ stored >>= _) = _
      rw [rules_eq h, ok_bind]
      show (Writer.leave ⟨0 + indentWidth, _⟩ >>= _) = _
      rw [leave_eq]
      simp [Writer.push, List.append_assoc]

/-- The text of a stylesheet is written without a fault. -/
lemma storedText_eq {stored : StoredSheet} {sheet : Stylesheet} (h : stored.Is files sheet) :
    storedText stored = .ok (sheetText sheet) := by
  have hall : stored.entries.foldlM (fun writer entry => writer.scope entry.1 entry.2)
      ({} : Writer) = .ok ⟨0, [] ++ sheetText sheet⟩ := by
    refine foldlM_write (fun entry other buffer ⟨hscope, hrules⟩ => ?_) h []
    rw [hscope]
    exact scope_eq hrules other.1 buffer
  rw [storedText, hall]
  rfl

/-- The outputs are those of the run. -/
lemma storeOutputs_eq {store : Store} {sheets : Sheets} (h : store.Is files sheets)
    (settings : Settings) : storeOutputs settings store = .ok (sheets.outputs settings) := by
  have houtput (name : String) {stored : StoredSheet} {sheet : Stylesheet}
      (hsheet : stored.Is files sheet) :
      storedOutput settings name stored = .ok (.ofSheet settings name sheet) := by
    rw [storedOutput, outputName_eq, ok_bind, storedText_eq hsheet, ok_bind, Output.ofSheet,
      Output.textOf]
    cases settings.layout <;> rfl
  have hall : Succeeds (storeOutputs settings store)
      (List.Forall₂ (fun output entry => output = .ofSheet settings entry.1 entry.2) ·
        sheets.byName.entries) := by
    refine succeeds_mapM (fun entry other ⟨hname, hsheet⟩ => ?_) h
    rw [houtput entry.1 hsheet, hname]
    exact succeeds_ok rfl
  obtain ⟨outputs, houtputs, hsame⟩ := hall
  have hmap := List.forall₂_map_right_iff.2 hsame
  rw [List.forall₂_eq_eq_eq] at hmap
  rw [houtputs, hmap]
  rfl

end Writer

end CssPrune.Checked
