import CssPrune.Css.Reading
import CssPrune.Css.Sheets
import CssPrune.Files.Access
import CssPrune.Html.Scan
import CssPrune.Output
import CssPrune.Selector.LiveSet
import CssPrune.Settings

/-!
# Sessions

A run step by step: documents and stylesheets are added in any order, `prune` removes the rules
that nothing added so far uses, and `outputs` prints what is left. The log holds what the run had
to say.

Steps that read a file stop at the first one that cannot be read. They then give the session as it
was before that file, so that no event is lost.
-/

namespace CssPrune

/-- What a run has gathered. -/
structure Session where
  settings : Settings
  references : References := .initial
  sheets : Sheets := .empty
  /-- The number of stylesheets added without a name of their own. -/
  unnamed : Nat := 0
  /-- The events so far, in order. -/
  log : List Event := []

namespace Session

/-- A run before its first step. -/
def start (settings : Settings) : Session := { settings }

/-- Adds events to the log, unless the run is quiet. -/
def report (session : Session) (events : List Event) : Session :=
  if session.settings.quiet then session else { session with log := session.log ++ events }

/-- Adds what a document refers to. -/
def addDocument (session : Session) (html : Text) : Session :=
  { session with references := session.references.scan html }

/-- Adds the rules of a stylesheet under a name: behind those that are there if the name is
known. -/
def addSheet (session : Session) (name : String) (css : Text) : Session :=
  let reading := Reading.ofSource ⟨name, css⟩
  { session with sheets := session.sheets.insertAll name reading.entries }.report reading.warnings

/-- The name of a stylesheet that has none of its own. -/
def inlineName (count : Nat) : String :=
  "inline_" ++ toString count

/-- Adds the rules of a stylesheet without a name; also gives the name that it goes under. -/
def addInline (session : Session) (css : Text) : String × Session :=
  let name := inlineName session.unnamed
  (name, { session with unnamed := session.unnamed + 1 }.addSheet name css)

/-- The selectors that count as used. -/
def live (session : Session) : LiveSet :=
  ⟨session.references, session.settings.whitelist.map String.toList⟩

/-- The events about the rules that are not used, in their order. -/
def removals (session : Session) : List Event :=
  (session.sheets.rules.filter fun (selector, _) => !session.live.isLive selector).map
    fun (selector, rule) => ⟨.removed selector, rule.span⟩

/-- Removes the rules that are not used. -/
def prune (session : Session) : Session :=
  { session with sheets := session.sheets.filter session.live.isLive }.report
    (if session.settings.verbose then session.removals else [])

/-- The rewritten stylesheets, in the order in which they were first added. -/
def outputs (session : Session) : List Output :=
  session.sheets.outputs session.settings

section Files

variable {m : Type → Type} [Monad m]

/-- Adds files one after the other, each as `add` says. -/
def addFiles (files : FileAccess m) (add : Session → String → Text → Session) (session : Session) :
    List String → m (Session × Option FileError)
  | [] => return (session, none)
  | path :: paths => do
    match ← files.readText path with
    | .error error => return (session, some error)
    | .ok text => addFiles files add (add session path text) paths

/-- Adds the documents at some paths. -/
def addDocuments (session : Session) (files : FileAccess m) (paths : List String) :
    m (Session × Option FileError) :=
  addFiles files (fun session _ html => session.addDocument html) session paths

/-- Adds the stylesheets at some paths, each under its path. -/
def addSheets (session : Session) (files : FileAccess m) (paths : List String) :
    m (Session × Option FileError) :=
  addFiles files addSheet session paths

/-- Adds documents and then stylesheets. -/
def addAll (session : Session) (files : FileAccess m) (html css : List String) :
    m (Session × Option FileError) := do
  match ← session.addDocuments files html with
  | (session, some error) => return (session, some error)
  | (session, none) => session.addSheets files css

end Files

end Session

end CssPrune
