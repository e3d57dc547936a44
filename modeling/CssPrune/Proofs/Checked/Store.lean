import CssPrune.Proofs.Checked.Bytes
import CssPrune.Proofs.Checked.Segments
import CssPrune.Proofs.Listing
import CssPrune.Session

/-!
# The checked store

The rules of a run, each with a span of the source map. A rule is inserted by looking up its
stylesheet, its scope and its place in the scope, each of which is made first if it is missing, so
no look-up fails. A rule that is removed is reported at its span, which is a span of one of the
files that were added (`StoredRule.Is`).
-/

namespace CssPrune.Checked

/-! ## Rules -/

/-- The declarations written for a selector list, and its span. -/
structure StoredRule where
  declarations : List Text
  span : MapSpan

/-- The rules of a stylesheet by scope and selector list. -/
abbrev StoredSheet := OrderedMap Scope (OrderedMap Text StoredRule)

/-- The rules of a run by stylesheet. -/
abbrev Store := OrderedMap String StoredSheet

section Slot

variable {κ β : Type} [BEq κ]

/-- Gives a key a value unless it has one, and looks its value up. -/
def slot (key : κ) (fresh : β) (map : OrderedMap κ β) : Except Fault (OrderedMap κ β × β) :=
  let next := if (map.get? key).isSome then map else map.insert key fresh
  match next.get? key with
  | some value => return (next, value)
  | none => .error .key

end Slot

/-- Adds declarations to a rule, or makes the rule. -/
def extendStored (found : Found) : Option StoredRule → StoredRule
  | none => ⟨[found.declarations], found.span⟩
  | some rule => { rule with declarations := rule.declarations ++ [found.declarations] }

/-- Inserts a rule that was found. -/
def insertFound (sheet : StoredSheet) (found : Found) : Except Fault StoredSheet := do
  let (sheet, rules) ← slot found.scope .empty sheet
  return sheet.insert found.scope (rules.update found.selector (extendStored found))

/-- Inserts the rules that were found in a stylesheet. -/
def insertFounds (store : Store) (name : String) (founds : List Found) : Except Fault Store := do
  let (store, sheet) ← slot name .empty store
  let sheet ← founds.foldlM insertFound sheet
  return store.insert name sheet

/-! ## Insertion -/

section Slot

variable {κ β : Type} [BEq κ] [LawfulBEq κ]

/-- A slot gives the value of its key or a fresh one, and can be filled as the map can. -/
lemma slot_eq (key : κ) (fresh : β) (map : OrderedMap κ β) :
    ∃ next, slot key fresh map = .ok (next, (map.get? key).getD fresh) ∧
      ∀ value, next.insert key value = map.insert key value := by
  cases hkey : map.get? key with
  | some value =>
    refine ⟨map, ?_, fun _ => rfl⟩
    simp [slot, hkey]
  | none =>
    refine ⟨map.insert key fresh, ?_, fun value => ?_⟩
    · simp [slot, hkey, OrderedMap.insert, OrderedMap.get?_update]
    · exact congrArg OrderedMap.mk (OrderedMap.updateEntries_updateEntries key _ _ map.entries)

end Slot

/-- A found rule is inserted without a fault, as an update of its scope and its selector list. -/
lemma insertFound_eq (sheet : StoredSheet) (found : Found) :
    insertFound sheet found = .ok (sheet.update found.scope fun rules? =>
      (rules?.getD .empty).update found.selector (extendStored found)) := by
  obtain ⟨next, hslot, hnext⟩ := slot_eq found.scope .empty sheet
  rw [insertFound, hslot, OrderedMap.update_eq_insert found.scope, ← hnext]
  rfl

/-- A stored rule is a rule of the run, and its span is a span of one of the files. -/
structure StoredRule.Is (files : List MapFile) (stored : StoredRule) (rule : Rule) : Prop where
  declarations : stored.declarations = rule.declarations
  span : ∃ file ∈ files, Locates file stored.span rule.span

/-- The rules of a stylesheet are stored. -/
def StoredSheet.Is (files : List MapFile) (stored : StoredSheet) (sheet : Stylesheet) : Prop :=
  stored.Related (fun rules ruleSet => rules.Related (StoredRule.Is files) ruleSet) sheet.scopes

/-- The rules of a run are stored. -/
def Store.Is (files : List MapFile) (store : Store) (sheets : Sheets) : Prop :=
  store.Related (StoredSheet.Is files) sheets.byName

section Insertion

variable {files : List MapFile} {file : MapFile} {stored : StoredSheet} {sheet : Stylesheet}
  {found : Found} {entry : Entry} {founds : List Found} {entries : List Entry}

/-- What is stored stays stored when files are added. -/
lemma Store.Is.mono {store : Store} {sheets : Sheets} (h : store.Is files sheets)
    {more : List MapFile} (hmore : files ⊆ more) : store.Is more sheets := by
  refine OrderedMap.Related.mono h fun _ _ hsheet => ?_
  refine OrderedMap.Related.mono hsheet fun _ _ hrules => ?_
  refine OrderedMap.Related.mono hrules fun _ _ ⟨hdeclarations, file, hfile, hspan⟩ => ?_
  exact ⟨hdeclarations, file, hmore hfile, hspan⟩

/-- What extends a stored rule extends the rule that it stands for. -/
lemma extendStored_is (hfile : file ∈ files) (hfound : Found.Is file found entry)
    {stored? : Option StoredRule} {rule? : Option Rule}
    (h : Option.Rel (StoredRule.Is files) stored? rule?) :
    (extendStored found stored?).Is files
      (Stylesheet.extendRule entry.declarations entry.span rule?) := by
  cases h with
  | none => exact ⟨by rw [extendStored, Stylesheet.extendRule, hfound.declarations],
      file, hfile, hfound.span⟩
  | some hrule => exact ⟨by rw [extendStored, Stylesheet.extendRule, hrule.declarations,
      hfound.declarations], hrule.span⟩

/-- What inserts a found rule inserts the entry that it stands for. -/
lemma insertFound_is (hfile : file ∈ files) (hfound : Found.Is file found entry)
    (h : stored.Is files sheet) :
    Succeeds (insertFound stored found) (StoredSheet.Is files · (sheet.insert entry)) := by
  rw [insertFound_eq, hfound.scope, hfound.selector]
  refine succeeds_ok (OrderedMap.Related.update h entry.scope fun rules? ruleSet? hrules => ?_)
  exact (OrderedMap.rel_getD hrules OrderedMap.related_empty).update entry.selector
    fun _ _ hrule => extendStored_is hfile hfound hrule

/-- What inserts found rules inserts the entries that they stand for. -/
lemma foldlM_insertFound_is (hfile : file ∈ files)
    (hfounds : List.Forall₂ (Found.Is file) founds entries) (h : stored.Is files sheet) :
    Succeeds (founds.foldlM insertFound stored)
      (StoredSheet.Is files · (sheet.insertAll entries)) := by
  induction hfounds generalizing stored sheet with
  | nil => exact succeeds_ok h
  | cons hfound _ ih => exact (insertFound_is hfile hfound h).bind fun next hnext => ih hnext

/-- Rules that were found are inserted without a fault. -/
lemma insertFounds_is {store : Store} {sheets : Sheets} (hfile : file ∈ files)
    (hfounds : List.Forall₂ (Found.Is file) founds entries) (h : store.Is files sheets)
    (name : String) :
    Succeeds (insertFounds store name founds)
      (Store.Is files · (sheets.insertAll name entries)) := by
  obtain ⟨next, hslot, hnext⟩ := slot_eq name .empty store
  have hpresent : StoredSheet.Is files ((store.get? name).getD .empty)
      ((sheets.byName.get? name).getD .empty) :=
    OrderedMap.rel_getD (OrderedMap.Related.get? h name) OrderedMap.related_empty
  rw [insertFounds, hslot, Sheets.insertAll, OrderedMap.update_eq_insert]
  refine (foldlM_insertFound_is hfile hfounds hpresent).bind fun sheet hsheet => ?_
  rw [hnext]
  exact succeeds_ok (OrderedMap.Related.update h name fun _ _ _ => hsheet)

end Insertion

end CssPrune.Checked
