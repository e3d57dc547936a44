import CssPrune.CommandLine.Arguments
import CssPrune.CommandLine.Discovery
import CssPrune.Prune

/-!
# The command

A run reads all documents, then all stylesheets, and only then writes. An HTML input that is too
long for a path is markup; such inputs are scanned first. Events and errors go to the standard
error.
-/

namespace CssPrune.CommandLine

/-- What a command leaves behind besides files. -/
structure Result where
  exitCode : UInt8
  stdout : String := ""
  stderr : String := ""
  deriving DecidableEq, Repr

/-- The name and the version of the command. -/
def versionText : String := "pare 0.3.1\n"

/-- How the command is used. -/
def helpText : String :=
  "Remove CSS rules that no HTML document uses\n\n" ++
  "Usage: pare [OPTIONS] --html <HTML> --css <CSS>\n\n" ++
  "Options:\n" ++
  "  -v, --version\n" ++
  "  -H, --html <HTML>            HTML file, glob pattern or literal markup to scan\n" ++
  "  -C, --css <CSS>              Stylesheet or glob pattern to rewrite\n" ++
  "      --inline-css <CSS>       A stylesheet given as text\n" ++
  "  -w, --whitelist <SELECTOR>   A selector to keep even if no HTML uses it\n" ++
  "      --suffix <SUFFIX>        Inserted before the extension of each output file\n" ++
  "      --comment <COMMENT>      Text written at the top of every expanded stylesheet\n" ++
  "  -s, --style <STYLE>          Minified or expanded output\n" ++
  "      --stdout                 Print the rewritten stylesheets\n" ++
  "      --verbose                Report every removed selector\n" ++
  "  -q, --quiet                  Print no warnings\n" ++
  "  -h, --help                   Print help\n"

/-- Bytes of the longest HTML input that is taken for a path. -/
def maxPath : Nat := 200

/-- Whether an HTML input is markup. -/
def isMarkup (input : String) : Bool :=
  maxPath < input.utf8ByteSize

/-- An output as it is printed. Of several outputs, each goes under the name of its target. -/
def printOutput (several : Bool) (output : Output) : String :=
  (if several then "/* " ++ output.target ++ " */\n" else "") ++ String.ofList output.text

/-- The outputs as they are printed. -/
def printOutputs (outputs : List Output) : String :=
  String.join (outputs.map (printOutput (1 < outputs.length)))

/-- The events of a log as they are printed. -/
def printLog (log : List Event) : String :=
  String.join (log.filterMap Event.report?)

/-- An error as it is printed. -/
def printError (error : FileError) : String :=
  error.message ++ "\n"

/-- The result of a run that failed. -/
def Result.failure (log : List Event) (error : FileError) : Result :=
  { exitCode := 1, stderr := printLog log ++ printError error }

variable {m : Type → Type} [Monad m]

/-- Adds what the arguments name, up to the first file that cannot be read. -/
def Arguments.gather (arguments : Arguments) (directory : Directory m) :
    m (Session × Option FileError) := do
  let markup := (arguments.html.filter isMarkup).map String.toList
  let session := markup.foldl Session.addDocument (.start arguments.settings)
  let html ← Glob.findAll directory (arguments.html.filter (!isMarkup ·))
  let css ← Glob.findAll directory arguments.css
  match ← session.addAll directory.toFileAccess html css with
  | (session, some error) => return (session, some error)
  | (session, none) =>
    let sheets := arguments.inlineCss.map String.toList
    return (sheets.foldl (fun session css => (session.addInline css).2) session, none)

/-- Prunes what the arguments name, and prints or writes the outputs. -/
def Arguments.run (arguments : Arguments) (directory : Directory m) : m Result := do
  match ← arguments.gather directory with
  | (session, some error) => return .failure session.log error
  | (session, none) =>
    let ⟨outputs, log⟩ := session.pruneAndPrint
    if arguments.stdout then
      return { exitCode := 0, stdout := printOutputs outputs, stderr := printLog log }
    else
      match ← writeOutputs directory.toFileAccess outputs with
      | .error error => return .failure log error
      | .ok () => return { exitCode := 0, stderr := printLog log }

/-- Does what a command line asks for. -/
def run (directory : Directory m) (arguments : List String) : m Result :=
  match Request.parse arguments with
  | .error error => return { exitCode := 2, stderr := error.message ++ "\n" }
  | .ok .version => return { exitCode := 0, stdout := versionText }
  | .ok .help => return { exitCode := 0, stdout := helpText }
  | .ok (.run arguments) => arguments.run directory

end CssPrune.CommandLine
