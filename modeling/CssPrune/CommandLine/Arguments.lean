import CssPrune.Settings

/-!
# Command line arguments

Arguments are read from left to right. An option takes its value from the same argument
(`--css=a.css`, `-Ca.css`, `-C=a.css`) or from the next one, which then must not look like a flag.
Short flags may share a hyphen. There are no arguments without a flag. The requests for the
version and for help are met as soon as they are read.
-/

namespace CssPrune.CommandLine

/-- The options that take a value. -/
inductive ValueOption where
  | html
  | css
  | inlineCss
  | whitelist
  | suffix
  | comment
  | style
  deriving DecidableEq, Repr

/-- The flags that take no value. -/
inductive Switch where
  | stdout
  | verbose
  | quiet
  deriving DecidableEq, Repr

/-- What a flag stands for. -/
inductive Flag where
  | value (option : ValueOption)
  | switch (switch : Switch)
  | version
  | help
  deriving DecidableEq, Repr

/-- The flags by their long names. -/
def longFlags : List (String × Flag) :=
  [("html", .value .html), ("css", .value .css), ("inline-css", .value .inlineCss),
    ("whitelist", .value .whitelist), ("suffix", .value .suffix), ("comment", .value .comment),
    ("style", .value .style), ("stdout", .switch .stdout), ("verbose", .switch .verbose),
    ("quiet", .switch .quiet), ("version", .version), ("help", .help)]

/-- The flags by their letters. -/
def shortFlags : List (Char × Flag) :=
  [('H', .value .html), ('C', .value .css), ('w', .value .whitelist), ('s', .value .style),
    ('q', .switch .quiet), ('v', .version), ('h', .help)]

/-- The long name of an option. -/
def ValueOption.name (option : ValueOption) : String :=
  ((longFlags.find? (·.2 = .value option)).map (·.1)).getD ""

/-- The long name of a switch. -/
def Switch.name (switch : Switch) : String :=
  ((longFlags.find? (·.2 = .switch switch)).map (·.1)).getD ""

/-- Why arguments are refused. -/
inductive UsageError where
  | unexpectedArgument (text : String)
  | unexpectedValue (flag : String)
  | missingValue (option : ValueOption)
  | repeatedOption (option : ValueOption)
  | repeatedSwitch (switch : Switch)
  | unknownStyle (text : String)
  | missingHtml
  | missingCss
  deriving DecidableEq, Repr

/-- The wording of a usage error. -/
def UsageError.message : UsageError → String
  | unexpectedArgument text => "error: unexpected argument '" ++ text ++ "' found"
  | unexpectedValue flag => "error: unexpected value for '--" ++ flag ++ "' found"
  | missingValue option => "error: a value is required for '--" ++ option.name ++ "'"
  | repeatedOption option =>
    "error: the argument '--" ++ option.name ++ "' cannot be used multiple times"
  | repeatedSwitch switch =>
    "error: the argument '--" ++ switch.name ++ "' cannot be used multiple times"
  | unknownStyle text => "error: invalid value '" ++ text ++ "' for '--style'"
  | missingHtml => "error: the required argument '--html' was not provided"
  | missingCss => "error: the required argument '--css' was not provided"

/-- The arguments of a run. -/
structure Arguments where
  html : List String := []
  css : List String := []
  inlineCss : List String := []
  whitelist : List String := []
  suffix? : Option String := none
  banner? : Option String := none
  layout? : Option Layout := none
  stdout : Bool := false
  verbose : Bool := false
  quiet : Bool := false
  deriving DecidableEq, Repr

/-- What the arguments ask for. -/
inductive Request where
  | run (arguments : Arguments)
  | version
  | help
  deriving DecidableEq, Repr

/-- The suffix of output names where none is given. -/
def defaultSuffix : String := ".pared"

/-- The settings of a run. -/
def Arguments.settings (arguments : Arguments) : Settings where
  layout := arguments.layout?.getD .expanded
  whitelist := arguments.whitelist
  suffix := some (arguments.suffix?.getD defaultSuffix)
  banner := arguments.banner?
  quiet := arguments.quiet
  verbose := arguments.verbose

/-- The layout of a name, in whatever case its letters are. -/
def layoutOf? (name : String) : Option Layout :=
  match String.ofList (name.toList.map Char.toLower) with
  | "expanded" => some .expanded
  | "compressed" => some .compressed
  | _ => none

namespace Arguments

/-- Gives an option a value. The options that hold one value are given once. -/
def give (arguments : Arguments) (option : ValueOption) (value : String) :
    Except UsageError Arguments :=
  match option with
  | .html => .ok { arguments with html := arguments.html ++ [value] }
  | .css => .ok { arguments with css := arguments.css ++ [value] }
  | .inlineCss => .ok { arguments with inlineCss := arguments.inlineCss ++ [value] }
  | .whitelist => .ok { arguments with whitelist := arguments.whitelist ++ [value] }
  | .suffix =>
    if arguments.suffix?.isSome then .error (.repeatedOption option)
    else .ok { arguments with suffix? := some value }
  | .comment =>
    if arguments.banner?.isSome then .error (.repeatedOption option)
    else .ok { arguments with banner? := some value }
  | .style =>
    if arguments.layout?.isSome then .error (.repeatedOption option)
    else match layoutOf? value with
      | none => .error (.unknownStyle value)
      | some layout => .ok { arguments with layout? := some layout }

/-- Turns a switch on, which is done once. -/
def turnOn (arguments : Arguments) (switch : Switch) : Except UsageError Arguments :=
  match switch with
  | .stdout =>
    if arguments.stdout then .error (.repeatedSwitch switch)
    else .ok { arguments with stdout := true }
  | .verbose =>
    if arguments.verbose then .error (.repeatedSwitch switch)
    else .ok { arguments with verbose := true }
  | .quiet =>
    if arguments.quiet then .error (.repeatedSwitch switch)
    else .ok { arguments with quiet := true }

/-- Arguments need a document and a stylesheet. -/
def complete (arguments : Arguments) : Except UsageError Request :=
  if arguments.html.isEmpty then .error .missingHtml
  else if arguments.css.isEmpty && arguments.inlineCss.isEmpty then .error .missingCss
  else .ok (.run arguments)

end Arguments

/-- Where the reading stands behind an argument. -/
inductive Step where
  /-- Between arguments. -/
  | next (arguments : Arguments)
  /-- Before the value of an option. -/
  | awaiting (arguments : Arguments) (option : ValueOption)
  /-- Behind the mark that ends the flags. -/
  | flagsEnded (arguments : Arguments)
  /-- At a request that is met at once. -/
  | done (request : Request)

/-- Reads an argument with a long flag, without its hyphens. -/
def readLong (arguments : Arguments) (text : Text) : Except UsageError Step :=
  let name := String.ofList (text.takeWhile (· != '='))
  let value? : Option Text := match text.dropWhile (· != '=') with
    | [] => none
    | _ :: value => some value
  match longFlags.lookup name, value? with
  | none, _ => .error (.unexpectedArgument ("--" ++ name))
  | some (.value option), some value => (arguments.give option (String.ofList value)).map .next
  | some (.value option), none => .ok (.awaiting arguments option)
  | some _, some _ => .error (.unexpectedValue name)
  | some (.switch switch), none => (arguments.turnOn switch).map .next
  | some .version, none => .ok (.done .version)
  | some .help, none => .ok (.done .help)

/-- Reads the short flags that share a hyphen. -/
def readShort (arguments : Arguments) : Text → Except UsageError Step
  | [] => .ok (.next arguments)
  | c :: rest =>
    match shortFlags.lookup c with
    | none => .error (.unexpectedArgument (String.ofList ['-', c]))
    | some .version => .ok (.done .version)
    | some .help => .ok (.done .help)
    | some (.switch switch) =>
      match arguments.turnOn switch with
      | .error error => .error error
      | .ok arguments => readShort arguments rest
    | some (.value option) =>
      match rest with
      | [] => .ok (.awaiting arguments option)
      | '=' :: value => (arguments.give option (String.ofList value)).map .next
      | value => (arguments.give option (String.ofList value)).map .next

/-- Reads an argument that is no value. -/
def readFlag (arguments : Arguments) (argument : String) : Except UsageError Step :=
  match argument.toList with
  | ['-', '-'] => .ok (.flagsEnded arguments)
  | '-' :: '-' :: text => readLong arguments text
  | '-' :: c :: text => readShort arguments (c :: text)
  | _ => .error (.unexpectedArgument argument)

/-- Reads the value of an option. A hyphen alone is a value, with more behind it a flag. -/
def readValue (arguments : Arguments) (option : ValueOption) (argument : String) :
    Except UsageError Step :=
  match argument.toList with
  | '-' :: _ :: _ => .error (.missingValue option)
  | _ => (arguments.give option argument).map .next

/-- Reads the arguments that are left. -/
def Step.read (step : Step) : List String → Except UsageError Request
  | [] =>
    match step with
    | next arguments | flagsEnded arguments => arguments.complete
    | awaiting _ option => .error (.missingValue option)
    | done request => .ok request
  | argument :: rest => do
    match step with
    | next arguments => (← readFlag arguments argument).read rest
    | awaiting arguments option => (← readValue arguments option argument).read rest
    | flagsEnded _ => throw (.unexpectedArgument argument)
    | done request => return request

/-- What a command line asks for. -/
def Request.parse (arguments : List String) : Except UsageError Request :=
  (Step.next {}).read arguments

end CssPrune.CommandLine
