import CssPrune.Session

/-!
# Pruning

Whole runs: texts or files in, outputs out. Only `writeOutputs` writes.
-/

namespace CssPrune

/-- The result of a run and its log. -/
structure Outcome (α : Type) where
  result : α
  log : List Event := []

/-- Ends a run: removes what is not used and prints the rest. -/
def Session.pruneAndPrint (session : Session) : Outcome (List Output) :=
  ⟨session.prune.outputs, session.prune.log⟩

/-- Prunes named stylesheets by documents. -/
def prune (html : List Text) (css : List (String × Text)) (settings : Settings) :
    Outcome (List Output) :=
  let session := html.foldl Session.addDocument (.start settings)
  (css.foldl (fun session (name, sheet) => session.addSheet name sheet) session).pruneAndPrint

/-- The text of the last output. -/
def lastText (outputs : List Output) : Text :=
  (outputs.getLast?.map (·.text)).getD []

/-- Prunes one stylesheet by one document. -/
def pruneText (html css : Text) (settings : Settings) : Outcome Text :=
  let run := prune [html] [("stdin.css", css)] settings
  ⟨lastText run.result, run.log⟩

section Files

variable {m : Type → Type} [Monad m]

/-- Prunes the stylesheets at some paths by the documents at others. The run stops at the first
file that cannot be read. -/
def pruneFiles (files : FileAccess m) (html css : List String) (settings : Settings) :
    m (Outcome (Except FileError (List Output))) := do
  match ← (Session.start settings).addAll files html css with
  | (session, some error) => return ⟨.error error, session.log⟩
  | (session, none) => return ⟨.ok session.pruneAndPrint.result, session.pruneAndPrint.log⟩

/-- Prunes the stylesheet at a path by the document at another. -/
def pruneFile (files : FileAccess m) (html css : String) (settings : Settings) :
    m (Outcome (Except FileError Text)) := do
  let run ← pruneFiles files [html] [css] settings
  return ⟨run.result.map lastText, run.log⟩

/-- Writes outputs to their targets one after the other, up to the first that cannot be
written. -/
def writeOutputs (files : FileAccess m) : List Output → m (Except FileError Unit)
  | [] => return .ok ()
  | output :: outputs => do
    match ← files.writeText output.target output.text with
    | .error error => return .error error
    | .ok () => writeOutputs files outputs

end Files

end CssPrune
