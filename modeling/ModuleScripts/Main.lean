import ModuleScripts.Command.Run
import ModuleScripts.Dom.Reader

/-!
# The command

Reads what a run needs from the system, does the run, and writes what it
answers.
-/

open ModuleScripts

namespace ModuleScripts.Command

/-- The lines that tell how the command is used. -/
def helpLines : List String := [
  "usage: esmshim [-h] [-o OUTPUT] [--url URL] [--amd] [--regenerator]",
  "               [--query-param QUERY_PARAM] [--passthrough] [-v]",
  "               input",
  "",
  "Rewrite <script type=module> tags for AMD loaders and legacy browsers.",
  "",
  "positional arguments:",
  "  input                 HTML file to transform ('-' reads stdin)",
  "",
  "options:",
  "  -h, --help            show this help message and exit",
  "  -o, --output OUTPUT   Write the result here instead of stdout",
  "  --url URL             Document URL used to resolve relative specifiers",
  "                        (default: the input path)",
  "  --amd                 Convert modules to AMD and inject the loader",
  "  --regenerator         Inject the generator-function runtime",
  "  --query-param QUERY_PARAM",
  "                        Query parameter appended to module URLs",
  "                        (default: $ESMSHIM_QUERY_PARAM)",
  "  --passthrough         Leave inline module bodies untouched",
  "  -v, --verbose         Enable debug logging"]

/-- Why the system refuses a path. The code of a directory comes with either
sign. -/
def faultOf : IO.Error → FileFault
  | .inappropriateType _ code _ =>
    if code = 21 ∨ code = 0 - 21 then .isDirectory else .notDirectory
  | .invalidArgument _ _ _ => .nameTooLong
  | _ => .missing

/-- Reads one file of the system. -/
def readFile (path : Path) : IO (Path × Except FileFault Text) := do
  match path.fault? with
  | some fault => return (path, .error fault)
  | none =>
    try
      return (path, .ok (← IO.FS.readFile (String.ofList path.toText)).toList)
    catch e => return (path, .error (faultOf e))

/-- The variables of the environment that matter. -/
def readEnvironment : IO Environment := do
  let names := [Settings.loaderVariable, Settings.runtimeVariable, Settings.paramVariable,
    Settings.homeVariable]
  names.filterMapM fun name => do
    return (← IO.getEnv (String.ofList name)).map fun value => (name, value.toList)

/-- Reads a stream to its end. -/
partial def readStream (stream : IO.FS.Stream) (read : Text) : IO Text := do
  let line ← stream.getLine
  if line.isEmpty then return read else readStream stream (read ++ line.toList)

/-- Reads from the system what a run needs. -/
def gather (options : Options) : IO Inputs := do
  let environment ← readEnvironment
  let settings := Settings.ofEnvironment environment
  let stdin ← if options.input = ['-'] then readStream (← IO.getStdin) [] else pure []
  let paths := (if options.input = ['-'] then [] else [Path.ofText options.input]) ++
    [settings.loader, settings.runtime].filterMap id
  let files ← paths.mapM readFile
  let directory := (← IO.currentDir).toString.toList
  return ⟨⟨environment, fun path => (files.lookup path).getD (.error .missing)⟩,
    normalizeLineEndings stdin, Path.ofText directory, Markup.read⟩

/-- Writes what a run answers, and gives the exit code. -/
def report (options : Options) (answer : List Record × Ending) : IO UInt32 := do
  IO.eprint (String.ofList (recordLines options answer.1))
  match answer.2 with
  | .print markup =>
    IO.print (String.ofList (markup ++ ['\n']))
    return 0
  | .save path markup =>
    IO.FS.writeFile (String.ofList path.toText) (String.ofList markup)
    return 0
  | .unreadable e =>
    IO.eprint (String.ofList (errorLine e.message))
    return 1
  | .failed failure =>
    IO.eprint (String.ofList (errorLine failure.message))
    return 1

end ModuleScripts.Command

open ModuleScripts.Command in
/-- Transforms one document. -/
def main (arguments : List String) : IO UInt32 := do
  match Options.parse (arguments.map String.toList) with
  | .error .help =>
    for line in helpLines do IO.println line
    return 0
  | .error (.usage e) =>
    for line in helpLines.take 3 do IO.eprintln line
    IO.eprintln (String.ofList (usageLine e))
    return 2
  | .ok options =>
    let inputs ← gather options
    report options (run inputs options)
