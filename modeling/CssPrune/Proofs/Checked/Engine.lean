import CssPrune.Proofs.Checked.Pruning
import CssPrune.Proofs.Checked.Writer
import CssPrune.Proofs.Runs
import Mathlib.Algebra.BigOperators.Group.List.Basic

/-!
# The checked engine

A whole run with every access checked: documents and stylesheets are added, rules are removed, and
what is left is written. A source map holds the stylesheets. As long as they are not too large, no
run ends with a fault, and it gives the outputs and the log of the session with the same steps
(`execute_eq_run`).

The step lemma keeps the relation between the engine and the session (`Engine.Is`), which also
counts the positions that were given away; the run goes by induction on its steps. Documents need no
checks, for scanning them uses no index.
-/

namespace CssPrune.Checked

/-- What a checked run has gathered. -/
structure Engine (Map : Type) where
  settings : Settings
  references : References := .initial
  store : Store := .empty
  map : Map
  unnamed : Nat := 0
  log : List Report := []

namespace Engine

variable {Map : Type} (maps : SourceMap Map)

/-- A checked run before its first step. -/
def start (settings : Settings) : Engine Map := { settings, map := maps.empty }

/-- Adds what a document refers to. -/
def addDocument (engine : Engine Map) (html : Text) : Engine Map :=
  { engine with references := engine.references.scan html }

/-- Adds the rules of a stylesheet under a name. -/
def addSheet (engine : Engine Map) (name : String) (css : Text) : Except Fault (Engine Map) := do
  let (map, span) ← maps.addFile engine.map ⟨name, css⟩
  let findings ← readSheet maps map engine.settings.quiet span css
  let store ← insertFounds engine.store name findings.founds
  return { engine with map, store, log := engine.log ++ findings.reports }

/-- Adds the rules of a stylesheet without a name. -/
def addInline (engine : Engine Map) (css : Text) : Except Fault (Engine Map) := do
  let unnamed ← unsigned (engine.unnamed + 1)
  addSheet maps { engine with unnamed } (Session.inlineName engine.unnamed) css

/-- The selectors that count as used. -/
def live (engine : Engine Map) : LiveSet :=
  ⟨engine.references, engine.settings.whitelist.map String.toList⟩

/-- Removes the rules that are not used. -/
def prune (engine : Engine Map) : Except Fault (Engine Map) := do
  let silent := !(engine.settings.verbose && !engine.settings.quiet)
  let (store, reports) ← pruneStore maps engine.map silent engine.live engine.store
  return { engine with store, log := engine.log ++ reports }

/-- Takes a step. -/
def step (engine : Engine Map) : Step → Except Fault (Engine Map)
  | .document html => return engine.addDocument html
  | .sheet name css => engine.addSheet maps name css
  | .inline css => engine.addInline maps css
  | .prune => engine.prune maps

end Engine

/-- A whole run: its outputs and its log. -/
def execute {Map : Type} (maps : SourceMap Map) (settings : Settings) (steps : List Step) :
    Except Fault (List Output × List Report) := do
  let engine ← steps.foldlM (Engine.step maps) (Engine.start maps settings)
  let outputs ← storeOutputs engine.settings engine.store
  return (outputs, engine.log)

/-- The positions of the source map that a step takes. -/
def stepSize : Step → Nat
  | .sheet _ css => Text.utf8Size css + 1
  | .inline css => Text.utf8Size css + 1
  | .document _ => 0
  | .prune => 0

/-! ## Steps -/

/-- The engine has gathered what a session has, in a source map with `used` positions. -/
structure Engine.Is {Map : Type} (maps : SourceMap Map) (engine : Engine Map) (session : Session)
    (used : Nat) : Prop where
  settings : engine.settings = session.settings
  references : engine.references = session.references
  unnamed : engine.unnamed = session.unnamed
  store : engine.store.Is (maps.files engine.map) session.sheets
  log : List.Forall₂ Report.Is engine.log session.log
  free : freePosition (maps.files engine.map) = used + 1

section Steps

variable {Map : Type} {maps : SourceMap Map} {engine : Engine Map} {session : Session} {used : Nat}

/-- An engine starts as a session does. -/
lemma Engine.start_is (hmaps : maps.Lawful) (settings : Settings) :
    (Engine.start maps settings).Is maps (Session.start settings) 0 where
  settings := rfl
  references := rfl
  unnamed := rfl
  store := OrderedMap.related_empty
  log := .nil
  free := by
    show freePosition (maps.files maps.empty) = _
    rw [hmaps.files_empty]
    rfl

/-- A new file moves the free positions behind it. -/
lemma freePosition_concat (files : List MapFile) (file : MapFile) :
    freePosition (files ++ [file]) = file.low + Text.utf8Size file.source.text + 1 := by
  rw [freePosition, List.getLast?_concat]
  rfl

/-- An added stylesheet keeps engine and session together if its size is left. -/
lemma Engine.Is.addSheet (h : engine.Is maps session used) (hmaps : maps.Lawful) (name : String)
    {css : Text} (hsize : used + (Text.utf8Size css + 1) < 2 ^ 31) :
    Succeeds (engine.addSheet maps name css)
      (·.Is maps (session.addSheet name css) (used + (Text.utf8Size css + 1))) := by
  have hroom : freePosition (maps.files engine.map) + Text.utf8Size css < 2 ^ 32 := by
    rw [h.free]
    omega
  obtain ⟨map, hadd, hfiles⟩ := hmaps.addFile engine.map ⟨name, css⟩ hroom
  have hfile : ⟨freePosition (maps.files engine.map), name, css⟩ ∈ maps.files map := by
    rw [hfiles]
    exact List.mem_append_right _ List.mem_cons_self
  have hkept : maps.files engine.map ⊆ maps.files map := by
    rw [hfiles]
    exact List.subset_append_left _ _
  rw [Engine.addSheet, hadd, ok_bind]
  refine (readSheet_of hmaps hfile (show Text.utf8Size css < 2 ^ 31 by omega)).bind
    fun findings hfindings => ?_
  refine (insertFounds_is hfile hfindings.founds (h.store.mono hkept) name).bind
    fun store hstore => succeeds_ok ?_
  have hreports := hfindings.reports
  rw [h.settings] at hreports
  constructor
  · rw [Session.settings_addSheet]
    exact h.settings
  · rw [Session.references_addSheet]
    exact h.references
  · rw [Session.unnamed_addSheet]
    exact h.unnamed
  · rw [Session.sheets_addSheet]
    exact hstore
  · rw [Session.log_addSheet_append]
    exact List.rel_append h.log hreports
  · show freePosition (maps.files map) = _
    rw [hfiles, freePosition_concat, h.free]
    show used + 1 + Text.utf8Size css + 1 = _
    omega

/-- Removing rules keeps engine and session together. -/
lemma Engine.Is.prune (h : engine.Is maps session used) (hmaps : maps.Lawful) :
    Succeeds (engine.prune maps) (·.Is maps session.prune used) := by
  have hlive : engine.live = session.live := by
    rw [Engine.live, Session.live, h.references, h.settings]
  rw [Engine.prune, hlive, h.settings]
  apply (pruneStore_is hmaps h.store).bind
  rintro ⟨store, reports⟩ ⟨hstore, hreports⟩
  apply succeeds_ok
  have hevents : (if session.settings.quiet then [] else
      if session.settings.verbose then session.removals else []) =
        if !(session.settings.verbose && !session.settings.quiet) then []
        else removalsOf session.live session.sheets.rules := by
    cases session.settings.quiet <;> cases session.settings.verbose <;> rfl
  constructor
  · rw [Session.settings_prune]
  · rw [Session.references_prune]
    exact h.references
  · rw [Session.unnamed_prune]
    exact h.unnamed
  · rw [Session.sheets_prune]
    exact hstore
  · rw [Session.log_prune_append, hevents]
    exact List.rel_append h.log hreports
  · exact h.free

/-- A stylesheet without a name takes at least one position. -/
lemma unnamed_step_le (session : Session) (step : Step) :
    (session.step step).unnamed ≤ session.unnamed + stepSize step := by
  cases step with
  | document html => exact Nat.le_refl _
  | sheet name css =>
    show (session.addSheet name css).unnamed ≤ _
    rw [Session.unnamed_addSheet]
    exact Nat.le_add_right _ _
  | inline css =>
    show ({ session with unnamed := session.unnamed + 1 }.addSheet _ css).unnamed ≤ _
    rw [Session.unnamed_addSheet, stepSize]
    show session.unnamed + 1 ≤ _
    omega
  | prune =>
    show session.prune.unnamed ≤ _
    rw [Session.unnamed_prune]
    exact Nat.le_add_right _ _

/-- One step of the engine is one step of the session. -/
lemma Engine.Is.step (h : engine.Is maps session used) (hmaps : maps.Lawful) (step : Step)
    (hcount : session.unnamed ≤ used) (hsize : used + stepSize step < 2 ^ 31) :
    Succeeds (engine.step maps step) (·.Is maps (session.step step) (used + stepSize step)) := by
  cases step with
  | document html =>
    refine succeeds_ok ⟨h.settings, ?_, h.unnamed, h.store, h.log, h.free⟩
    show engine.references.scan html = session.references.scan html
    rw [h.references]
  | sheet name css => exact h.addSheet hmaps name hsize
  | inline css =>
    have hunnamed : unsigned (engine.unnamed + 1) = .ok (session.unnamed + 1) := by
      rw [h.unnamed]
      exact unsigned_eq (by omega)
    have hnext : Engine.Is maps { engine with unnamed := session.unnamed + 1 }
        { session with unnamed := session.unnamed + 1 } used :=
      ⟨h.settings, h.references, rfl, h.store, h.log, h.free⟩
    show Succeeds (unsigned (engine.unnamed + 1) >>= _) _
    rw [hunnamed, ok_bind, h.unnamed]
    exact hnext.addSheet hmaps _ hsize
  | prune => exact h.prune hmaps

/-- A run of the engine is a run of the session. -/
lemma Engine.Is.run (h : engine.Is maps session used) (hmaps : maps.Lawful) (steps : List Step)
    (hcount : session.unnamed ≤ used) (hsize : used + (steps.map stepSize).sum < 2 ^ 31) :
    Succeeds (steps.foldlM (Engine.step maps) engine)
      (·.Is maps (session.run steps) (used + (steps.map stepSize).sum)) := by
  induction steps generalizing engine session used with
  | nil => exact succeeds_ok h
  | cons step steps ih =>
    rw [List.map_cons, List.sum_cons, ← Nat.add_assoc] at hsize ⊢
    rw [List.foldlM_cons]
    refine (h.step hmaps step hcount (by omega)).bind fun next hnext => ?_
    exact ih hnext ((unnamed_step_le session step).trans (Nat.add_le_add_right hcount _)) hsize

end Steps

/-! ## Runs -/

/-- For every source map that keeps its rules, all settings and every sequence of steps whose
stylesheets take fewer than `2 ^ 31` positions, a run with every access checked ends without a
fault. Its outputs are those of the session, and its log holds the events of the session, each at
its place; each of them can be printed. -/
theorem execute_eq_run {Map : Type} {maps : SourceMap Map} (hmaps : maps.Lawful)
    (settings : Settings) (steps : List Step) (hsize : (steps.map stepSize).sum < 2 ^ 31) :
    ∃ log, execute maps settings steps =
        .ok (((Session.start settings).run steps).outputs, log) ∧
      List.Forall₂ Report.Is log ((Session.start settings).run steps).log ∧
      ∀ event ∈ ((Session.start settings).run steps).log,
        ∃ text, event.report? = some text := by
  obtain ⟨engine, hrun, hengine⟩ :=
    (Engine.start_is hmaps settings).run hmaps steps (Nat.le_refl 0) (by rwa [Nat.zero_add])
  refine ⟨engine.log, ?_, hengine.log, fun event hevent => ?_⟩
  · rw [execute, hrun, ok_bind, storeOutputs_eq hengine.store, hengine.settings]
    rfl
  · obtain ⟨report, hreport⟩ := exists_rel_of_mem hengine.log hevent
    exact hreport.exists_report

/-- A pair of line ends, a character of several bytes, a media rule without text and a comment that
is not closed, with every event reported. -/
theorem execute_eq_run_half_open :
    let steps : List Step :=
      [.document ['<', 'a', '>'],
        .sheet "a.css" ['é', '{', 'x', '}', '\r', '\n', '@', 'm', 'e', 'd', 'i', 'a'],
        .inline ['b', '{', 'x', '}', '/', '*'], .prune]
    let session := (Session.start { verbose := true }).run steps
    SourceMap.table.Lawful ∧ (steps.map stepSize).sum < 2 ^ 31 ∧
      ∃ log, execute SourceMap.table { verbose := true } steps = .ok (session.outputs, log) ∧
        List.Forall₂ Report.Is log session.log ∧
        ∀ event ∈ session.log, ∃ text, event.report? = some text :=
  ⟨lawful_table, by decide, execute_eq_run lawful_table { verbose := true } _ (by decide)⟩

end CssPrune.Checked
