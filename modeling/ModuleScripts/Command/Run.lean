import ModuleScripts.Command.Usage
import ModuleScripts.Dom.Markup
import ModuleScripts.Page.Transform
import ModuleScripts.Url.File

/-!
# One run of the command

A run reads a document, transforms it and says where the markup goes. Expected
failures end it with a message; a failure that is not expected leaves it.
-/

namespace ModuleScripts.Command

/-- The name of the program in its messages. -/
def programName : Text := "esmshim".toList

/-- What a run is given besides its options. -/
structure Inputs where
  /-- Environment and files. -/
  host : Host
  /-- The text of standard input. -/
  stdin : Text
  /-- The current directory. -/
  directory : Path
  /-- How markup is read. -/
  readMarkup : Text → Node

/-- How a run ends. -/
inductive Ending where
  /-- The markup goes to standard output. -/
  | print (markup : Text)
  /-- The markup goes to a file. -/
  | save (file : Path) (markup : Text)
  /-- A file of the run cannot be read. -/
  | unreadable (e : FileError)
  /-- The transform fails. -/
  | failed (failure : Failure)
  deriving DecidableEq, Repr

/-- Where the document of a run is found: at the location given, or at the file
that is read. -/
def location (directory : Path) (options : Options) : Text :=
  match options.url.toText with
  | c :: url => c :: url
  | [] =>
    if options.input = ['-'] then "about:blank".toList
    else Url.ofFile directory (Path.ofText options.input)

/-- The plugins that the options ask for. -/
def plugins (options : Options) : List Plugin :=
  (if options.amd then [amdPlugin] else []) ++
    if options.regenerator then [regeneratorPlugin] else []

/-- The text of the document, or why it cannot be read. -/
def readInput (inputs : Inputs) (options : Options) : Except FileError Text :=
  if options.input = ['-'] then .ok inputs.stdin
  else
    let path := Path.ofText options.input
    match inputs.host.read path with
    | .ok text => .ok (normalizeLineEndings text)
    | .error fault => .error ⟨fault, path.toText⟩

/-- The query parameter of a run, with the cache once it was asked for. The
settings count only where the options give none. -/
def queryParam (host : Host) (options : Options) : Text × Cache :=
  match options.queryParam with
  | .absent => ((Cache.empty.currentSettings host).param, Cache.empty.withSettings host)
  | value => (value.toText, Cache.empty)

/-- The strategy that the options ask for. -/
def strategy (options : Options) : Strategy :=
  if options.passthrough then Strategy.passthrough else Strategy.standard

/-- Where the markup goes. An empty output name means standard output. -/
def destination (options : Options) (markup : Text) : Ending :=
  match options.output.toText with
  | c :: name => .save (Path.ofText (c :: name)) markup
  | [] => .print markup

/-- One run: its records and how it ends. -/
def run (inputs : Inputs) (options : Options) : List Record × Ending :=
  match readInput inputs options with
  | .error e => ([], .unreadable e)
  | .ok text =>
    let param := queryParam inputs.host options
    let effect := Page.transform inputs.host
      ⟨location inputs.directory options, strategy options, plugins options, param.1,
        LogName.command⟩
      ⟨inputs.readMarkup text, param.2⟩
    match effect.result with
    | .error failure => (effect.records, .failed failure)
    | .ok () => (effect.records, destination options effect.page.root.toMarkup)

/-- The records that are shown. -/
def shownRecords (options : Options) (records : List Record) : List Record :=
  records.filter fun r => options.verbose || r.event.level == .warning

/-- The shown records, a line each. -/
def recordLines (options : Options) (records : List Record) : Text :=
  (shownRecords options records).flatMap fun r => r.line ++ ['\n']

/-- The line about what stops a run. -/
def errorLine (message : Text) : Text := "error: ".toList ++ message ++ ['\n']

/-- Whether the command knows a file error and reports it: one of the system. -/
def isReportedFault (fault : FileFault) : Bool := fault.report?.isSome

/-- Whether the command knows a failure and reports it. -/
def isReported : Failure → Bool
  | .syntaxError _ => true
  | .polyfill _ => true
  | .badEscape _ => false

/-- The line about a command line that cannot be used. -/
def usageLine (e : UsageError) : Text := programName ++ ": error: ".toList ++ e.message

end ModuleScripts.Command
